import SickPool.Library.Tally
import SickPool.Payouts.RoundShare
import SickPool.Round.RoundStore
import Mathlib.Algebra.BigOperators.Ring.List
import Mathlib.Algebra.Order.BigOperators.Group.List
import Mathlib.Data.Rat.Floor
import Mathlib.Tactic.Linarith

/-!
# The rewards of a PPLNS window

`GetRewardsPPLNS` goes over the shares of the window from the newest to the oldest, and gives
the oldest what the others leave of `n`. When it returns true the ratios are a whole, and the
rewards miss the reward of the block, less the fee, by less than one unit for every share.
When the window has less than `n`, the oldest share is paid for work that nobody did.
Difficulties and fee are exact numbers.
-/
namespace SickPool.Payouts

open SickPool.Library SickPool.Round
open SickPool.Stats (Share)

namespace RoundReward

instance : Zero (RoundReward Int) := ⟨⟨0, 0, 0⟩⟩
instance : Add (RoundReward Int) :=
  ⟨fun a b => ⟨a.effort + b.effort, a.share + b.share, a.reward + b.reward⟩⟩

theorem add_def (a b : RoundReward Int) :
    a + b = ⟨a.effort + b.effort, a.share + b.share, a.reward + b.reward⟩ := rfl

theorem share_add (a b : RoundReward Int) : (a + b).share = a.share + b.share := rfl

theorem zero_def : (0 : RoundReward Int) = ⟨0, 0, 0⟩ := rfl

instance : AddCommMonoid (RoundReward Int) where
  add_assoc a b c := by simp only [add_def, add_assoc]
  zero_add a := by simp only [add_def, zero_def, zero_add]
  add_zero a := by simp only [add_def, zero_def, add_zero]
  add_comm a b := by simp only [add_def, add_comm]
  nsmul := nsmulRec

def shareHom : RoundReward Int →+ ℚ := ⟨⟨share, rfl⟩, fun _ _ => rfl⟩

def rewardHom : RoundReward Int →+ Int := ⟨⟨reward, rfl⟩, fun _ _ => rfl⟩

end RoundReward

/-- `static_cast<int64_t>` of a double. What is out of range becomes the least integer, as
the processor has it. -/
def staticCastInt64 (q : ℚ) : Int := (int64? (truncate q)).getD (-2 ^ 63)

/-- `round_shares_t`. -/
abbrev RoundShares := Tally Nat (RoundReward Int)

def addSharePPLNS (minerShares : RoundShares) (scoreSum n score : ℚ) (blockReward : Int64)
    (fee : ℚ) (id : Nat) : RoundShares × ℚ :=
  let shareRatio := score / n
  let reward := staticCastInt64 (shareRatio * (1 - fee) * blockReward.toInt)
  (minerShares.add id ⟨1, shareRatio, reward⟩, scoreSum + score)

/-- The map is written also when the function returns false. -/
def getRewardsPPLNS (minerShares : RoundShares) (shares : List (Share ℚ)) (blockReward : Int64)
    (n fee : ℚ) : RoundShares × Bool :=
  match shares with
  | [] => (minerShares, false)
  | oldest :: newer =>
    let (minerShares, scoreSum) := newer.reverse.foldl
      (fun (minerShares, scoreSum) share =>
        addSharePPLNS minerShares scoreSum n share.diff blockReward fee share.minerId)
      (minerShares, 0)
    if n ≤ scoreSum then (minerShares, false)
    else ((addSharePPLNS minerShares scoreSum n (n - scoreSum) blockReward fee oldest.minerId).1,
      true)

/-! ## The scores -/

def diffSum (shares : List (Share ℚ)) : ℚ := (shares.map (·.diff)).sum

/-- The difficulties of a miner's own shares. -/
def ownDiffs (id : Nat) (shares : List (Share ℚ)) : ℚ := diffSum (shares.filter (·.minerId = id))

/-- Who is paid, and for which score, in the order of the payments. -/
def scores (n : ℚ) (oldest : Share ℚ) (newer : List (Share ℚ)) : List (Nat × ℚ) :=
  newer.reverse.map (fun s => (s.minerId, s.diff)) ++ [(oldest.minerId, n - diffSum newer)]

def payment (blockReward : Int64) (n fee : ℚ) (e : Nat × ℚ) : Nat × RoundReward Int :=
  (e.1, ⟨1, e.2 / n, staticCastInt64 (e.2 / n * (1 - fee) * blockReward.toInt)⟩)

section Payments

variable {blockReward : Int64} {n fee : ℚ}

theorem foldl_addSharePPLNS (before : RoundShares) (sum : ℚ) (shares : List (Share ℚ)) :
    shares.foldl (fun (minerShares, scoreSum) share =>
        addSharePPLNS minerShares scoreSum n share.diff blockReward fee share.minerId)
      (before, sum) =
    (before.addAll ((shares.map (fun s => (s.minerId, s.diff))).map (payment blockReward n fee)),
      sum + diffSum shares) := by
  induction shares generalizing before sum with
  | nil => simp [Tally.addAll, diffSum]
  | cons s shares ih =>
    rw [List.foldl_cons]
    refine (ih _ _).trans (Prod.ext rfl ?_)
    simp only [diffSum, List.map_cons, List.sum_cons, add_assoc]

theorem diffSum_reverse (shares : List (Share ℚ)) : diffSum shares.reverse = diffSum shares := by
  rw [diffSum, List.map_reverse, List.sum_reverse]
  rfl

/-- `GetRewardsPPLNS` returns true if the newer shares leave something of `n`, and then it
has made all payments. -/
theorem getRewardsPPLNS_cons (before : RoundShares) (oldest : Share ℚ) (newer : List (Share ℚ)) :
    getRewardsPPLNS before (oldest :: newer) blockReward n fee =
      if n ≤ diffSum newer then
        (before.addAll ((newer.reverse.map (fun s => (s.minerId, s.diff))).map
          (payment blockReward n fee)), false)
      else (before.addAll ((scores n oldest newer).map (payment blockReward n fee)), true) := by
  simp only [getRewardsPPLNS, foldl_addSharePPLNS, diffSum_reverse, zero_add]
  split
  · rfl
  · rw [scores, List.map_append, Tally.addAll_append]
    rfl

theorem getRewardsPPLNS_true {before after : RoundShares} {shares : List (Share ℚ)}
    (h : getRewardsPPLNS before shares blockReward n fee = (after, true)) :
    ∃ oldest newer, shares = oldest :: newer ∧ diffSum newer < n ∧
      after = before.addAll ((scores n oldest newer).map (payment blockReward n fee)) := by
  cases shares with
  | nil => cases h
  | cons oldest newer =>
    rw [getRewardsPPLNS_cons] at h
    split at h
    · cases h
    · rename_i hlt
      exact ⟨oldest, newer, rfl, not_le.mp hlt, (Prod.mk.inj h).1.symm⟩

theorem scores_sum (n : ℚ) (oldest : Share ℚ) (newer : List (Share ℚ)) :
    ((scores n oldest newer).map Prod.snd).sum = n := by
  have hnewer : ((newer.reverse.map (fun s => (s.minerId, s.diff))).map Prod.snd).sum =
      diffSum newer := by
    rw [List.map_map, ← diffSum_reverse]
    rfl
  rw [scores, List.map_append, List.sum_append, hnewer]
  simp

theorem mem_scores_miners (n : ℚ) (oldest : Share ℚ) (newer : List (Share ℚ)) (id : Nat) :
    id ∈ (scores n oldest newer).map Prod.fst ↔ id ∈ (oldest :: newer).map (·.minerId) := by
  simp only [scores, List.map_append, List.map_map, List.map_reverse, List.mem_append,
    List.mem_reverse, List.map_cons, List.map_nil, List.mem_cons, List.not_mem_nil, or_false]
  exact or_comm

theorem scores_nonneg {oldest : Share ℚ} {newer : List (Share ℚ)} (hdiff : ∀ s ∈ newer, 0 ≤ s.diff)
    (hn : diffSum newer < n) : ∀ e ∈ scores n oldest newer, 0 ≤ e.2 := by
  intro e he
  obtain he | he := List.mem_append.mp he
  · obtain ⟨s, hs, rfl⟩ := List.mem_map.mp he
    exact hdiff s (List.mem_reverse.mp hs)
  · obtain rfl := List.mem_singleton.mp he
    exact sub_nonneg.mpr hn.le

/-! ## Truncation -/

theorem staticCastInt64_eq_floor {q : ℚ} (h0 : 0 ≤ q) (hlt : q < 2 ^ 63) :
    staticCastInt64 q = ⌊q⌋ := by
  have hfloor : 0 ≤ ⌊q⌋ := Int.floor_nonneg.mpr h0
  have hbound : ⌊q⌋ < 2 ^ 63 := Int.floor_lt.mpr (by exact_mod_cast hlt)
  have htrunc : truncate q = ⌊q⌋ := if_pos h0
  have hfits : int64? ⌊q⌋ = some ⌊q⌋ := if_pos ⟨by omega, hbound⟩
  rw [staticCastInt64, htrunc, hfits, Option.getD_some]

/-- A sum of truncated amounts misses the sum of the amounts by less than one for each. -/
theorem sum_staticCastInt64 {qs : List ℚ} (h : ∀ q ∈ qs, 0 ≤ q ∧ q < 2 ^ 63) :
    ((qs.map staticCastInt64).sum : ℚ) ≤ qs.sum ∧
      (qs ≠ [] → qs.sum - qs.length < ((qs.map staticCastInt64).sum : ℚ)) := by
  induction qs with
  | nil => simp
  | cons q qs ih =>
    obtain ⟨h0, hlt⟩ := h q (by simp)
    obtain ⟨hle, hgt⟩ := ih fun x hx => h x (by simp [hx])
    have hcast := staticCastInt64_eq_floor h0 hlt
    have hf := Int.floor_le q
    have hf' := Int.lt_floor_add_one q
    have hrest : qs.sum - qs.length ≤ ((qs.map staticCastInt64).sum : ℚ) := by
      cases qs with
      | nil => simp
      | cons x xs => exact (hgt (by simp)).le
    simp only [List.map_cons, List.sum_cons, List.length_cons, hcast, Int.cast_add, Nat.cast_add,
      Nat.cast_one]
    exact ⟨by linarith, fun _ => by linarith⟩

end Payments

/-! ## Conservation -/

def ratioSum (minerShares : RoundShares) : ℚ := (minerShares.entries.map (·.2.share)).sum

def rewardSum (minerShares : RoundShares) : Int := (minerShares.entries.map (·.2.reward)).sum

/-- The ratios are a whole, the rewards are what the block pays less the fee and less than one
unit for each share, and exactly the miners of the shares are paid. -/
structure Conserved (shares : List (Share ℚ)) (blockReward : Int64) (fee : ℚ) (after : RoundShares) :
    Prop where
  ratios : ratioSum after = 1
  rewards_le : (rewardSum after : ℚ) ≤ (1 - fee) * blockReward.toInt
  rewards_gt : (1 - fee) * blockReward.toInt - shares.length < (rewardSum after : ℚ)
  nonneg : ∀ e ∈ after.entries, 0 ≤ e.2.reward
  miners : ∀ id, id ∈ after.entries.map Prod.fst ↔ id ∈ shares.map (·.minerId)

section Conservation

variable {blockReward : Int64} {n fee : ℚ} {es : List (Nat × ℚ)}

theorem ratioSum_addAll (paid : List (Nat × RoundReward Int)) :
    ratioSum (Tally.empty.addAll paid) = RoundReward.shareHom (paid.map Prod.snd).sum :=
  Tally.sum_addAll RoundReward.shareHom paid

theorem rewardSum_addAll (paid : List (Nat × RoundReward Int)) :
    rewardSum (Tally.empty.addAll paid) = RoundReward.rewardHom (paid.map Prod.snd).sum :=
  Tally.sum_addAll RoundReward.rewardHom paid

theorem payments_share (es : List (Nat × ℚ)) :
    RoundReward.shareHom ((es.map (payment blockReward n fee)).map Prod.snd).sum =
      (es.map Prod.snd).sum / n := by
  rw [map_list_sum, List.map_map, List.map_map, div_eq_mul_inv, ← List.sum_map_mul_right]
  rfl

/-- The parts of a whole. -/
def partsDue (whole n : ℚ) (es : List (Nat × ℚ)) : List ℚ := es.map (fun e => e.2 / n * whole)

theorem partsDue_sum (whole n : ℚ) (es : List (Nat × ℚ)) :
    (partsDue whole n es).sum = (es.map Prod.snd).sum / n * whole := by
  have hmul : partsDue whole n es = es.map (fun e => e.2 * (n⁻¹ * whole)) := by
    refine List.map_congr_left fun e _ => ?_
    rw [div_eq_mul_inv, mul_assoc]
  rw [hmul, List.sum_map_mul_right, div_eq_mul_inv, mul_assoc]

theorem amount_le_sum (hnonneg : ∀ e ∈ es, 0 ≤ e.2) {e : Nat × ℚ} (he : e ∈ es) :
    e.2 ≤ (es.map Prod.snd).sum := by
  apply List.single_le_sum _ _ (List.mem_map_of_mem he)
  intro x hx
  obtain ⟨f, hf, rfl⟩ := List.mem_map.mp hx
  exact hnonneg f hf

theorem partsDue_range {whole : ℚ} (hn : 0 < n) (hwhole : 0 ≤ whole ∧ whole < 2 ^ 63)
    (hnonneg : ∀ e ∈ es, 0 ≤ e.2) (hsum : (es.map Prod.snd).sum ≤ n) :
    ∀ q ∈ partsDue whole n es, 0 ≤ q ∧ q < 2 ^ 63 := by
  intro q hq
  obtain ⟨e, he, rfl⟩ := List.mem_map.mp hq
  have hsingle := amount_le_sum hnonneg he
  have h0 : 0 ≤ e.2 / n := div_nonneg (hnonneg e he) hn.le
  have h1 : e.2 / n ≤ 1 := (div_le_one hn).mpr (hsingle.trans hsum)
  exact ⟨mul_nonneg h0 hwhole.1, lt_of_le_of_lt (mul_le_of_le_one_left hwhole.1 h1) hwhole.2⟩

/-- What the fee leaves is an amount of 64 bits. -/
theorem afterFee_range (hfee : 0 ≤ fee ∧ fee ≤ 1) (hreward : 0 ≤ blockReward.toInt) :
    0 ≤ (1 - fee) * blockReward.toInt ∧ (1 - fee) * blockReward.toInt < 2 ^ 63 := by
  have hr : (0 : ℚ) ≤ blockReward.toInt := by exact_mod_cast hreward
  have hmax : (blockReward.toInt : ℚ) < 2 ^ 63 := by exact_mod_cast blockReward.toInt_lt
  have hless : (1 - fee) * (blockReward.toInt : ℚ) ≤ blockReward.toInt :=
    mul_le_of_le_one_left hr (by linarith [hfee.1])
  exact ⟨mul_nonneg (by linarith [hfee.2]) hr, by linarith⟩

/-- The amounts before truncation. -/
def amountsDue (blockReward : Int64) (n fee : ℚ) (es : List (Nat × ℚ)) : List ℚ :=
  es.map (fun e => e.2 / n * (1 - fee) * blockReward.toInt)

theorem amountsDue_eq (es : List (Nat × ℚ)) :
    amountsDue blockReward n fee es = partsDue ((1 - fee) * blockReward.toInt) n es :=
  List.map_congr_left fun _ _ => mul_assoc ..

theorem amountsDue_sum (hn : n ≠ 0) (hsum : (es.map Prod.snd).sum = n) :
    (amountsDue blockReward n fee es).sum = (1 - fee) * blockReward.toInt := by
  rw [amountsDue_eq, partsDue_sum, hsum, div_self hn, one_mul]

theorem payments_reward (es : List (Nat × ℚ)) :
    RoundReward.rewardHom ((es.map (payment blockReward n fee)).map Prod.snd).sum =
      ((amountsDue blockReward n fee es).map staticCastInt64).sum := by
  rw [map_list_sum, amountsDue, List.map_map, List.map_map, List.map_map]
  rfl

theorem amountsDue_range (hn : 0 < n) (hfee : 0 ≤ fee ∧ fee ≤ 1)
    (hreward : 0 ≤ blockReward.toInt) (hnonneg : ∀ e ∈ es, 0 ≤ e.2)
    (hsum : (es.map Prod.snd).sum = n) :
    ∀ q ∈ amountsDue blockReward n fee es, 0 ≤ q ∧ q < 2 ^ 63 := by
  rw [amountsDue_eq]
  exact partsDue_range hn (afterFee_range hfee hreward) hnonneg hsum.le

/-- A reward is a sum of truncated amounts. -/
theorem given_reward_nonneg (hrange : ∀ q ∈ amountsDue blockReward n fee es, 0 ≤ q ∧ q < 2 ^ 63)
    (id : Nat) : 0 ≤ (Tally.given id (es.map (payment blockReward n fee))).reward := by
  induction es with
  | nil => exact le_refl 0
  | cons e es ih =>
    have hrest := ih fun q hq => hrange q (List.mem_cons_of_mem _ hq)
    obtain ⟨h0, hlt⟩ := hrange (e.2 / n * (1 - fee) * blockReward.toInt) (by simp [amountsDue])
    have hcast := staticCastInt64_eq_floor h0 hlt
    rw [List.map_cons, Tally.given_cons]
    apply add_nonneg _ hrest
    split
    · exact hcast.ge.trans' (Int.floor_nonneg.mpr h0)
    · exact le_refl 0

end Conservation

/-- The rewards of a window that the function accepts. -/
theorem getRewardsPPLNS_conserved (shares : List (Share ℚ)) (hdiff : ∀ s ∈ shares, 0 ≤ s.diff)
    (blockReward : Int64) (hreward : 0 ≤ blockReward.toInt) (n fee : ℚ) (hn : 0 < n)
    (hfee : 0 ≤ fee ∧ fee ≤ 1) (after : RoundShares)
    (h : getRewardsPPLNS Tally.empty shares blockReward n fee = (after, true)) :
    Conserved shares blockReward fee after := by
  obtain ⟨oldest, newer, rfl, hlt, rfl⟩ := getRewardsPPLNS_true h
  have hsum := scores_sum n oldest newer
  have hnonneg : ∀ e ∈ scores n oldest newer, 0 ≤ e.2 :=
    scores_nonneg (fun s hs => hdiff s (by simp [hs])) hlt
  have hrange : ∀ q ∈ amountsDue blockReward n fee (scores n oldest newer), 0 ≤ q ∧ q < 2 ^ 63 :=
    amountsDue_range hn hfee hreward hnonneg hsum
  have hdue : (amountsDue blockReward n fee (scores n oldest newer)).sum = _ :=
    amountsDue_sum hn.ne' hsum
  have hlength : (amountsDue blockReward n fee (scores n oldest newer)).length =
      (oldest :: newer).length := by
    simp [amountsDue, scores]
  obtain ⟨hle, hgt⟩ := sum_staticCastInt64 hrange
  have hrewards : rewardSum (Tally.empty.addAll ((scores n oldest newer).map
      (payment blockReward n fee))) =
        ((amountsDue blockReward n fee (scores n oldest newer)).map staticCastInt64).sum :=
    (rewardSum_addAll _).trans (payments_reward _)
  refine ⟨?_, ?_, ?_, ?_, ?_⟩
  · rw [ratioSum_addAll, payments_share, hsum, div_self hn.ne']
  · rw [hrewards, ← hdue]
    exact hle
  · rw [hrewards, ← hdue, ← hlength]
    exact hgt (by simp [amountsDue, scores])
  · intro e he
    have hvalue := Tally.value_of_mem _ he
    rw [Tally.value_addAll, Tally.value_empty, zero_add] at hvalue
    exact hvalue ▸ given_reward_nonneg hrange e.1
  · intro id
    have hmem := mem_scores_miners n oldest newer id
    refine (Tally.mem_keys_addAll _ id _).trans ?_
    rw [List.map_map, ← hmem]
    exact or_iff_right List.not_mem_nil

/-- Two shares of difficulty 1.5 and a window of 2, with a fee of one percent. -/
theorem getRewardsPPLNS_conserved_two :
    (getRewardsPPLNS Tally.empty [⟨2, 3 / 2⟩, ⟨3, 3 / 2⟩] 100000000 2 (1 / 100)).1.entries =
        [(3, ⟨1, 3 / 4, 74250000⟩), (2, ⟨1, 1 / 4, 24750000⟩)] ∧
      Conserved [⟨2, 3 / 2⟩, ⟨3, 3 / 2⟩] 100000000 (1 / 100)
        (getRewardsPPLNS Tally.empty [⟨2, 3 / 2⟩, ⟨3, 3 / 2⟩] 100000000 2 (1 / 100)).1 :=
  ⟨by decide +kernel, getRewardsPPLNS_conserved _ (by decide +kernel) _ (by decide) 2 (1 / 100)
    (by decide +kernel) (by decide +kernel) _ (Prod.ext rfl (by decide +kernel))⟩

/-! ## Paying for work -/

/-- What a call adds to the ratio of a miner is at most the miner's own work as a part of
`n`. On an empty map it is the ratio itself. -/
def PaidForWork (shares : List (Share ℚ)) (n : ℚ) (before after : RoundShares) : Prop :=
  ∀ id, (after.value id).share ≤ (before.value id).share + ownDiffs id shares / n

section Work

variable {blockReward : Int64} {n fee : ℚ}

theorem given_payment (id : Nat) (es : List (Nat × ℚ)) :
    (Tally.given id (es.map (payment blockReward n fee))).share = Tally.given id es / n := by
  induction es with
  | nil => exact (zero_div n).symm
  | cons e es ih =>
    have hfst : (payment blockReward n fee e).1 = e.1 := rfl
    rw [List.map_cons, Tally.given_cons, Tally.given_cons, RoundReward.share_add, ih, add_div, hfst]
    by_cases hid : e.1 = id
    · rw [if_pos hid, if_pos hid]
      rfl
    · rw [if_neg hid, if_neg hid, zero_div]
      rfl

theorem given_diffs (id : Nat) (shares : List (Share ℚ)) :
    Tally.given id (shares.map (fun s => (s.minerId, s.diff))) = ownDiffs id shares := by
  rw [Tally.given, List.filter_map, List.map_map]
  rfl

theorem ownDiffs_reverse (id : Nat) (shares : List (Share ℚ)) :
    ownDiffs id shares.reverse = ownDiffs id shares := by
  rw [ownDiffs, List.filter_reverse, diffSum_reverse]
  rfl

theorem ownDiffs_cons (id : Nat) (s : Share ℚ) (shares : List (Share ℚ)) :
    ownDiffs id (s :: shares) = (if s.minerId = id then s.diff else 0) + ownDiffs id shares := by
  by_cases h : s.minerId = id <;> simp [ownDiffs, diffSum, h]

theorem given_scores (id : Nat) (oldest : Share ℚ) (newer : List (Share ℚ)) :
    Tally.given id (scores n oldest newer) =
      ownDiffs id newer + if oldest.minerId = id then n - diffSum newer else 0 := by
  rw [scores, Tally.given_append, given_diffs, ownDiffs_reverse, Tally.given_cons]
  simp [Tally.given]

/-- The oldest share is paid for no more than its difficulty. -/
theorem paidForWork_iff (blockReward : Int64) (fee : ℚ) (hn : 0 < n) (before : RoundShares)
    (oldest : Share ℚ) (newer : List (Share ℚ)) :
    PaidForWork (oldest :: newer) n before
        (before.addAll ((scores n oldest newer).map (payment blockReward n fee))) ↔
      n ≤ diffSum (oldest :: newer) := by
  have hid : ∀ id, ((before.addAll ((scores n oldest newer).map
        (payment blockReward n fee))).value id).share =
      (before.value id).share +
        (ownDiffs id newer + if oldest.minerId = id then n - diffSum newer else 0) / n := by
    intro id
    rw [Tally.value_addAll, RoundReward.share_add, given_payment, given_scores]
  have hsum : diffSum (oldest :: newer) = oldest.diff + diffSum newer := rfl
  unfold PaidForWork
  simp only [hid, ownDiffs_cons, add_le_add_iff_left, div_le_div_iff_of_pos_right hn, hsum]
  constructor
  · intro h
    have holdest := h oldest.minerId
    simp only [↓reduceIte] at holdest
    linarith
  · intro h id
    split <;> linarith

end Work

/-- The miners are paid for submitted work exactly if the window has `n`. -/
theorem getRewardsPPLNS_paid_iff (shares : List (Share ℚ)) (hne : shares ≠ [])
    (hdiff : ∀ s ∈ shares, 0 ≤ s.diff) (blockReward : Int64) (n fee : ℚ) (hn : 0 < n)
    (before : RoundShares) :
    (∀ after, getRewardsPPLNS before shares blockReward n fee = (after, true) →
        PaidForWork shares n before after) ↔ n ≤ diffSum shares := by
  obtain ⟨oldest, newer, rfl⟩ := List.exists_cons_of_ne_nil hne
  have hsum : diffSum (oldest :: newer) = oldest.diff + diffSum newer := rfl
  rw [getRewardsPPLNS_cons]
  by_cases hle : n ≤ diffSum newer
  · rw [if_pos hle]
    refine iff_of_true (fun after h => ?_) ?_
    · cases h
    · linarith [hdiff oldest (by simp)]
  · rw [if_neg hle, ← paidForWork_iff blockReward fee hn before]
    constructor
    · intro h
      exact h _ rfl
    · intro h after hafter
      obtain ⟨rfl, -⟩ := Prod.mk.inj hafter
      exact h

theorem getRewardsPPLNS_paid_iff_two :
    (∀ after, getRewardsPPLNS Tally.empty [⟨2, 3 / 2⟩, ⟨3, 3 / 2⟩] 100000000 2 0 =
        (after, true) → PaidForWork [⟨2, 3 / 2⟩, ⟨3, 3 / 2⟩] 2 Tally.empty after) ↔
      2 ≤ diffSum [⟨2, 3 / 2⟩, ⟨3, 3 / 2⟩] :=
  getRewardsPPLNS_paid_iff _ (by simp) (by decide +kernel) _ 2 0 (by decide +kernel) _

/-- One share of difficulty 1 and a window of 1000: its miner has the whole reward. -/
theorem getRewardsPPLNS_unsubmitted :
    (getRewardsPPLNS Tally.empty [⟨7, 1⟩] 100000000 1000 0).2 = true ∧
      (getRewardsPPLNS Tally.empty [⟨7, 1⟩] 100000000 1000 0).1.entries =
        [(7, ⟨1, 1, 100000000⟩)] ∧
      ¬ PaidForWork [⟨7, 1⟩] 1000 Tally.empty
        (getRewardsPPLNS Tally.empty [⟨7, 1⟩] 100000000 1000 0).1 := by
  refine ⟨by decide +kernel, by decide +kernel, fun h => ?_⟩
  exact absurd (h 7) (by decide +kernel)

end SickPool.Payouts
