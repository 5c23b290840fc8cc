import SickPool.Payouts.PayoutManager

/-!
# Proportional rewards

`GetRewardsPROP` truncates the reward of the block once, less the fee, and then the part of every
miner. What the truncations leave is less than one unit for every miner.
-/
namespace SickPool.Payouts

open SickPool.Library SickPool.Round

/-- The entry of a miner. -/
def roundShare (substractedReward : Int) (totalEffort effort : ℚ) : RoundReward Int :=
  let share := effort / totalEffort
  ⟨effort, share, staticCastInt64 (share * substractedReward)⟩

def getRewardsPROP (minerShares : RoundShares) (blockReward : Int64) (minerEfforts : Tally Nat ℚ)
    (totalEffort fee : ℚ) : RoundShares × Bool :=
  let substractedReward := staticCastInt64 (blockReward.toInt * (1 - fee))
  if totalEffort = 0 then (minerShares, false)
  else
    (minerEfforts.entries.foldl
      (fun minerShares (minerId, effort) =>
        minerShares.tryEmplace minerId (roundShare substractedReward totalEffort effort))
      minerShares, true)

/-! ## The entries -/

theorem getRewardsPROP_entries (blockReward : Int64) (minerEfforts : Tally Nat ℚ)
    {totalEffort : ℚ} (fee : ℚ) (htotal : totalEffort ≠ 0) :
    (getRewardsPROP Tally.empty blockReward minerEfforts totalEffort fee).2 = true ∧
    (getRewardsPROP Tally.empty blockReward minerEfforts totalEffort fee).1.entries =
      minerEfforts.entries.map fun e =>
        (e.1, roundShare (staticCastInt64 (blockReward.toInt * (1 - fee))) totalEffort e.2) := by
  have hfold : getRewardsPROP Tally.empty blockReward minerEfforts totalEffort fee =
      (Tally.empty.tryEmplaceAll (minerEfforts.entries.map fun e =>
        (e.1, roundShare (staticCastInt64 (blockReward.toInt * (1 - fee))) totalEffort e.2)),
        true) := by
    rw [getRewardsPROP, if_neg htotal, Tally.tryEmplaceAll, List.foldl_map]
  have hnodup : ((minerEfforts.entries.map fun e =>
      (e.1, roundShare (staticCastInt64 (blockReward.toInt * (1 - fee))) totalEffort e.2)).map
        Prod.fst).Nodup := by
    rw [List.map_map]
    exact minerEfforts.nodup
  rw [hfold]
  refine ⟨rfl, ?_⟩
  rw [Tally.tryEmplaceAll_entries hnodup (fun _ _ => List.not_mem_nil)]
  rfl

/-! ## Conservation -/

def effortSum (minerEfforts : Tally Nat ℚ) : ℚ := (minerEfforts.entries.map Prod.snd).sum

/-- Every miner has one entry, the entries are what the block pays less the fee and, if the
efforts are the whole, less than one unit for every miner, and more effort is not paid less. -/
structure Proportional (minerEfforts : Tally Nat ℚ) (blockReward : Int64) (totalEffort fee : ℚ)
    (after : RoundShares) : Prop where
  miners : after.keys = minerEfforts.keys
  nonneg : ∀ e ∈ after.entries, 0 ≤ e.2.reward
  rewards_le : rewardSum after ≤ ⌊(1 - fee) * blockReward.toInt⌋
  rewards_gt : effortSum minerEfforts = totalEffort →
    ⌊(1 - fee) * blockReward.toInt⌋ - minerEfforts.entries.length < rewardSum after
  monotone : ∀ (a b : Nat) (x y : ℚ) (r s : RoundReward Int), (a, x) ∈ minerEfforts.entries →
    (b, y) ∈ minerEfforts.entries → (a, r) ∈ after.entries → (b, s) ∈ after.entries →
    x ≤ y → r.reward ≤ s.reward

section Parts

variable {blockReward : Int64} {fee totalEffort : ℚ} {kept : Int} {es : List (Nat × ℚ)}

theorem substractedReward_eq (hfee : 0 ≤ fee ∧ fee ≤ 1) (hreward : 0 ≤ blockReward.toInt) :
    staticCastInt64 (blockReward.toInt * (1 - fee)) = ⌊(1 - fee) * blockReward.toInt⌋ := by
  obtain ⟨h0, hlt⟩ := afterFee_range hfee hreward
  rw [mul_comm]
  exact staticCastInt64_eq_floor h0 hlt

theorem substractedReward_range (hfee : 0 ≤ fee ∧ fee ≤ 1) (hreward : 0 ≤ blockReward.toInt) :
    0 ≤ ⌊(1 - fee) * blockReward.toInt⌋ ∧ ⌊(1 - fee) * blockReward.toInt⌋ < 2 ^ 63 := by
  obtain ⟨h0, hlt⟩ := afterFee_range hfee hreward
  exact ⟨Int.floor_nonneg.mpr h0, Int.floor_lt.mpr (by exact_mod_cast hlt)⟩

/-- The entries are made of the efforts, and each part of what is kept fits an `int64_t`. -/
structure PaidParts (kept : Int) (totalEffort : ℚ) (es : List (Nat × ℚ)) (after : RoundShares) :
    Prop where
  entries : after.entries = es.map fun e => (e.1, roundShare kept totalEffort e.2)
  range : ∀ q ∈ partsDue kept totalEffort es, 0 ≤ q ∧ q < 2 ^ 63

namespace PaidParts

variable {after : RoundShares}

theorem rewardSum_eq (h : PaidParts kept totalEffort es after) :
    rewardSum after = ((partsDue kept totalEffort es).map staticCastInt64).sum := by
  rw [rewardSum, h.entries, partsDue, List.map_map, List.map_map]
  rfl

theorem roundShare_reward (h : PaidParts kept totalEffort es after) {e : Nat × ℚ} (he : e ∈ es) :
    (roundShare kept totalEffort e.2).reward = ⌊e.2 / totalEffort * kept⌋ := by
  obtain ⟨h0, hlt⟩ := h.range _ (List.mem_map_of_mem he)
  exact staticCastInt64_eq_floor h0 hlt

/-- A miner's entry is the one made of the miner's effort, since a key occurs once. -/
theorem reward_of_effort (h : PaidParts kept totalEffort es after) {a : Nat} {x : ℚ}
    {r : RoundReward Int} (hx : (a, x) ∈ es) (hr : (a, r) ∈ after.entries) :
    r.reward = ⌊x / totalEffort * kept⌋ := by
  have hmade : (a, roundShare kept totalEffort x) ∈ after.entries := by
    rw [h.entries]
    exact List.mem_map.mpr ⟨(a, x), hx, rfl⟩
  have hvalue : after.value a = r := after.value_of_mem hr
  have hvalue' : after.value a = roundShare kept totalEffort x := after.value_of_mem hmade
  have hreward := h.roundShare_reward hx
  rw [← hvalue, hvalue']
  exact hreward

theorem reward_nonneg (h : PaidParts kept totalEffort es after) :
    ∀ e ∈ after.entries, 0 ≤ e.2.reward := by
  intro e he
  rw [h.entries] at he
  obtain ⟨f, hf, rfl⟩ := List.mem_map.mp he
  obtain ⟨h0, -⟩ := h.range _ (List.mem_map_of_mem hf)
  exact (h.roundShare_reward hf).ge.trans' (Int.floor_nonneg.mpr h0)

theorem rewardSum_le (h : PaidParts kept totalEffort es after) (htotal : 0 < totalEffort)
    (hkept : 0 ≤ kept) (hsum : (es.map Prod.snd).sum ≤ totalEffort) :
    rewardSum after ≤ kept := by
  have hk : (0 : ℚ) ≤ kept := by exact_mod_cast hkept
  have hpart : (es.map Prod.snd).sum / totalEffort ≤ 1 := (div_le_one htotal).mpr hsum
  have hdue : (partsDue kept totalEffort es).sum ≤ kept := by
    rw [partsDue_sum]
    exact mul_le_of_le_one_left hk hpart
  rw [h.rewardSum_eq]
  exact_mod_cast (sum_staticCastInt64 h.range).1.trans hdue

theorem lt_rewardSum (h : PaidParts kept totalEffort es after) (htotal : 0 < totalEffort)
    (hsum : (es.map Prod.snd).sum = totalEffort) : kept - es.length < rewardSum after := by
  have hne : partsDue kept totalEffort es ≠ [] := by
    intro hnil
    rw [List.map_eq_nil_iff.mp hnil] at hsum
    exact htotal.ne hsum
  have hdue : (partsDue kept totalEffort es).sum = kept := by
    rw [partsDue_sum, hsum, div_self htotal.ne', one_mul]
  have hless := (sum_staticCastInt64 h.range).2 hne
  rw [hdue, partsDue, List.length_map] at hless
  rw [h.rewardSum_eq]
  exact_mod_cast hless

end PaidParts

end Parts

/-- The rewards of a round whose miners have no more than its effort. -/
theorem getRewardsPROP_proportional (minerEfforts : Tally Nat ℚ)
    (hefforts : ∀ e ∈ minerEfforts.entries, 0 ≤ e.2) (totalEffort : ℚ) (htotal : 0 < totalEffort)
    (hsum : effortSum minerEfforts ≤ totalEffort) (fee : ℚ) (hfee : 0 ≤ fee ∧ fee ≤ 1)
    (blockReward : Int64) (hreward : 0 ≤ blockReward.toInt) :
    (getRewardsPROP Tally.empty blockReward minerEfforts totalEffort fee).2 = true ∧
      Proportional minerEfforts blockReward totalEffort fee
        (getRewardsPROP Tally.empty blockReward minerEfforts totalEffort fee).1 := by
  obtain ⟨hdone, hentries⟩ := getRewardsPROP_entries blockReward minerEfforts fee htotal.ne'
  refine ⟨hdone, ?_⟩
  have hkept := substractedReward_range hfee hreward
  have hwhole : (0 : ℚ) ≤ ⌊(1 - fee) * (blockReward.toInt : ℚ)⌋ ∧
      (⌊(1 - fee) * (blockReward.toInt : ℚ)⌋ : ℚ) < 2 ^ 63 := by exact_mod_cast hkept
  rw [substractedReward_eq hfee hreward] at hentries
  have hparts : PaidParts _ totalEffort minerEfforts.entries _ :=
    ⟨hentries, partsDue_range htotal hwhole hefforts hsum⟩
  constructor
  case miners =>
    rw [Tally.keys, hentries, List.map_map]
    rfl
  case nonneg => exact hparts.reward_nonneg
  case rewards_le => exact hparts.rewardSum_le htotal hkept.1 hsum
  case rewards_gt => exact hparts.lt_rewardSum htotal
  case monotone =>
    intro a b x y r s hx hy hr hs hxy
    have hk := hwhole.1
    rw [hparts.reward_of_effort hx hr, hparts.reward_of_effort hy hs]
    apply Int.floor_le_floor
    gcongr

/-- The round of 5000 with a reward of 1000000000 and a fee of one percent. -/
theorem getRewardsPROP_three_miners :
    (getRewardsPROP Tally.empty 1000000000 ⟨[(1, 1000), (2, 2000), (3, 2000)], by decide⟩ 5000
        (1 / 100)).1.entries =
      [(1, ⟨1000, 1 / 5, 198000000⟩), (2, ⟨2000, 2 / 5, 396000000⟩),
        (3, ⟨2000, 2 / 5, 396000000⟩)] ∧
    Proportional ⟨[(1, 1000), (2, 2000), (3, 2000)], by decide⟩ 1000000000 5000 (1 / 100)
      (getRewardsPROP Tally.empty 1000000000 ⟨[(1, 1000), (2, 2000), (3, 2000)], by decide⟩ 5000
        (1 / 100)).1 :=
  ⟨by decide +kernel, (getRewardsPROP_proportional _ (by decide +kernel) 5000 (by decide +kernel)
    (by decide +kernel) (1 / 100) (by decide +kernel) 1000000000 (by decide)).2⟩

end SickPool.Payouts
