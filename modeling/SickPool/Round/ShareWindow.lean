import Mathlib.Algebra.Order.BigOperators.Group.List
import Mathlib.Algebra.Order.Ring.Rat
import Mathlib.Tactic.Linarith
import SickPool.Round.RedisRound

/-!
# What the window should become

The pending difficulty is to leave the window at its oldest end. The scan of
`AddPendingShares` finds where, but the range read afterwards is counted in bytes and from
the wrong side: it holds the last record when nothing is removed, and no record otherwise.
-/
namespace SickPool.Round

open SickPool.Library SickPool.Stats

/-- A record whose difficulty is a number. -/
def toShare (s : Nat × ℚ) : RoundShare := ⟨s.1, .num s.2⟩

def total (shares : List (Nat × ℚ)) : ℚ := (shares.map Prod.snd).sum

@[simp] theorem total_nil : total [] = 0 := rfl

@[simp] theorem total_cons (s : Nat × ℚ) (shares : List (Nat × ℚ)) :
    total (s :: shares) = s.2 + total shares := by
  simp [total]

@[simp] theorem total_append (as bs : List (Nat × ℚ)) :
    total (as ++ bs) = total as + total bs := by
  simp [total]

/-- Difficulty taken from the oldest end: whole records while they fit, then a part of one. -/
def removeOldest : ℚ → List (Nat × ℚ) → List (Nat × ℚ)
  | _, [] => []
  | amount, s :: rest =>
    if amount ≤ 0 then s :: rest
    else if s.2 ≤ amount then removeOldest (amount - s.2) rest
    else (s.1, s.2 - amount) :: rest

/-- Called on a window, `AddPendingShares` ends and leaves the window slid by the pending
shares. -/
def Slides (stored pending : List (Nat × ℚ)) : Prop :=
  ∃ batches, addPendingShares batches (stored.map toShare) (pending.map toShare) =
    .set ((removeOldest (total pending) (stored ++ pending)).map toShare)

theorem toShare_injective : Function.Injective toShare := by
  intro a b h
  obtain ⟨h₁, h₂⟩ := Stats.Share.mk.inj h
  exact Prod.ext h₁ (Double.num.inj h₂)

/-! ## The specification -/

theorem removeOldest_of_nonpos {amount : ℚ} (h : amount ≤ 0) (shares : List (Nat × ℚ)) :
    removeOldest amount shares = shares := by
  cases shares with
  | nil => rfl
  | cons s rest => rw [removeOldest, if_pos h]

/-- Nothing is left exactly when each record in turn is needed and fits. -/
theorem removeOldest_eq_nil_iff (amount : ℚ) (shares : List (Nat × ℚ)) :
    removeOldest amount shares = [] ↔ ∀ j < shares.length,
      total (shares.take j) < amount ∧ total (shares.take (j + 1)) ≤ amount := by
  induction shares generalizing amount with
  | nil => simp [removeOldest]
  | cons s rest ih =>
    have hshift : (∀ j < (s :: rest).length, total ((s :: rest).take j) < amount ∧
        total ((s :: rest).take (j + 1)) ≤ amount) ↔
        (0 < amount ∧ s.2 ≤ amount) ∧ ∀ j < rest.length,
          total (rest.take j) < amount - s.2 ∧ total (rest.take (j + 1)) ≤ amount - s.2 := by
      constructor
      · intro h
        refine ⟨by simpa using h 0 (by simp), fun j hj => ?_⟩
        have hj' := h (j + 1) (by simpa using hj)
        simp only [List.take_succ_cons, total_cons] at hj'
        exact ⟨by linarith [hj'.1], by linarith [hj'.2]⟩
      · rintro ⟨h₀, h⟩ j hj
        cases j with
        | zero => simpa using h₀
        | succ j =>
          have hj' := h j (by simpa using hj)
          simp only [List.take_succ_cons, total_cons]
          exact ⟨by linarith [hj'.1], by linarith [hj'.2]⟩
    rw [hshift, removeOldest]
    by_cases h₀ : amount ≤ 0
    · rw [if_pos h₀]
      exact ⟨fun h => absurd h (by simp), fun h => absurd h.1.1 (not_lt.mpr h₀)⟩
    · rw [if_neg h₀]
      by_cases h₁ : s.2 ≤ amount
      · rw [if_pos h₁, ih]
        exact ⟨fun h => ⟨⟨not_le.mp h₀, h₁⟩, h⟩, fun h => h.2⟩
      · rw [if_neg h₁]
        exact ⟨fun h => absurd h (by simp), fun h => absurd h.1.2 h₁⟩

theorem total_take_le {shares : List (Nat × ℚ)} (h : ∀ s ∈ shares, 0 ≤ s.2) (j : Nat) :
    total (shares.take j) ≤ total shares := by
  have hdrop : 0 ≤ total (shares.drop j) := by
    refine List.sum_nonneg fun d hd => ?_
    obtain ⟨s, hs, rfl⟩ := List.mem_map.mp hd
    exact h s (List.mem_of_mem_drop hs)
  have hsum := total_append (shares.take j) (shares.drop j)
  rw [List.take_append_drop] at hsum
  linarith

/-! ## The scan -/

theorem foldl_diff (pending : List (Nat × ℚ)) (r : ℚ) :
    (pending.map toShare).foldl (fun sum share => sum + share.diff) (.num r) =
      .num (r + total pending) := by
  induction pending generalizing r with
  | nil => simp
  | cons s rest ih =>
    rw [List.map_cons, List.foldl_cons, toShare, Double.num_add_num, ih, total_cons, add_assoc]

/-- A batch either fits, or the loop breaks at the first record that does not. -/
theorem scanBatch_cases (D : ℚ) (shares : List (Nat × ℚ)) (k : Nat) (v : Double) (r : ℚ) :
    (scanBatch (.num D) (shares.map toShare) ⟨k, v, .num r⟩ =
        ⟨k + shares.length, v, .num (r + total shares)⟩ ∧
      ∀ j ≤ shares.length, 0 < j → r + total (shares.take j) ≤ D) ∨
    ∃ j < shares.length, D < r + total (shares.take (j + 1)) ∧
      scanBatch (.num D) (shares.map toShare) ⟨k, v, .num r⟩ =
        ⟨k + j, .num (D - (r + total (shares.take j))), .num D⟩ := by
  induction shares generalizing k r with
  | nil =>
    refine .inl ⟨by simp [scanBatch], fun j hj hpos => ?_⟩
    exact absurd hj (by simpa using Nat.pos_iff_ne_zero.mp hpos)
  | cons s rest ih =>
    rw [List.map_cons, scanBatch]
    simp only [toShare, Double.num_add_num, Double.num_lt_num, Double.num_sub_num,
      add_sub_cancel]
    by_cases hs : D < r + s.2
    · rw [if_pos hs]
      exact .inr ⟨0, by simp, by simpa using hs, by simp⟩
    · rw [if_neg hs]
      rcases ih (k + 1) (r + s.2) with ⟨h, hfit⟩ | ⟨j, hj, hbreak, h⟩
      · refine .inl ⟨?_, fun j hj hpos => ?_⟩
        · rw [h, List.length_cons, total_cons, add_assoc, add_assoc, Nat.add_comm 1]
        · obtain ⟨j, rfl⟩ := Nat.exists_eq_succ_of_ne_zero hpos.ne'
          rw [Nat.succ_eq_add_one, List.take_succ_cons, total_cons]
          rcases Nat.eq_zero_or_pos j with rfl | hj'
          · simpa using not_lt.mp hs
          · have := hfit j (by simpa using hj) hj'
            linarith
      · refine .inr ⟨j + 1, by simpa using hj, ?_, ?_⟩
        · rw [List.take_succ_cons, total_cons]
          linarith
        · rw [h, List.take_succ_cons, total_cons, add_assoc, add_assoc, Nat.add_comm 1]

/-- The batch the loop reads after `k` records. -/
theorem batch_eq (shares : List (Nat × ℚ)) (k : Nat) :
    getSharesBetween (shares.map toShare) k (k + 10) = ((shares.drop k).take 10).map toShare := by
  rw [getSharesBetween_batch, List.map_take, List.map_drop]

theorem total_take_add (shares : List (Nat × ℚ)) (k j : Nat) :
    total (shares.take (k + j)) = total (shares.take k) + total ((shares.drop k).take j) := by
  rw [List.take_add, total_append]

/-- One turn of the outer loop, in positions of the whole window. -/
theorem scanBatch_turn {D : ℚ} {shares : List (Nat × ℚ)} {k : Nat} (hk : k ≤ shares.length)
    (hfit : total (shares.take k) ≤ D) :
    let next := k + min 10 (shares.length - k)
    let result := scanBatch (.num D) (getSharesBetween (shares.map toShare) k (k + 10))
      ⟨k, 0, .num (total (shares.take k))⟩
    (result = ⟨next, 0, .num (total (shares.take next))⟩ ∧ total (shares.take next) ≤ D) ∨
    ∃ i < shares.length, D < total (shares.take (i + 1)) ∧
      result = ⟨i, .num (D - total (shares.take i)), .num D⟩ := by
  intro next result
  have hlen : ((shares.drop k).take 10).length = min 10 (shares.length - k) := by
    rw [List.length_take, List.length_drop]
  have hpos : ∀ j ≤ min 10 (shares.length - k), total (shares.take k) +
      total (((shares.drop k).take 10).take j) = total (shares.take (k + j)) := by
    intro j hj
    rw [List.take_take, min_eq_left (le_trans hj (min_le_left _ _)), total_take_add]
  have hresult : result = scanBatch (.num D) (((shares.drop k).take 10).map toShare)
      ⟨k, 0, .num (total (shares.take k))⟩ := by
    rw [← batch_eq]
  rcases scanBatch_cases D ((shares.drop k).take 10) k 0 (total (shares.take k)) with
    ⟨hb, hall⟩ | ⟨j, hj, hbreak, hb⟩
  · have hsum : total (shares.take k) + total ((shares.drop k).take 10) =
        total (shares.take next) := by
      rw [← hpos _ le_rfl, ← hlen, List.take_length]
    refine .inl ⟨by rw [hresult, hb, hsum, hlen], ?_⟩
    rcases Nat.eq_zero_or_pos (min 10 (shares.length - k)) with h₀ | h₀
    · simpa [next, h₀] using hfit
    · have := hall _ le_rfl (hlen ▸ h₀)
      rwa [List.take_length, hsum] at this
  · rw [hlen] at hj
    rw [hpos _ hj] at hbreak
    rw [hpos _ hj.le] at hb
    exact .inr ⟨k + j, by omega, hbreak, hresult.trans hb⟩

/-- Where the loop ends: what is left of the difficulty is the value of the first share, and
the next record, if any is needed, does not fit. -/
structure Stopped (D : ℚ) (shares : List (Nat × ℚ)) (sc : Scan) : Prop where
  value : sc.firstShareValue = .num (D - total (shares.take sc.removeCount))
  count_le : sc.removeCount ≤ shares.length
  full : total (shares.take sc.removeCount) = D ∨
    sc.removeCount < shares.length ∧ D < total (shares.take (sc.removeCount + 1))

theorem Stopped.of_eq {D : ℚ} {shares : List (Nat × ℚ)} {k : Nat} (hk : k ≤ shares.length)
    (h : total (shares.take k) = D) :
    Stopped D shares ⟨k, 0, .num (total (shares.take k))⟩ where
  value := by
    simp only [h, sub_self]
    rfl
  count_le := hk
  full := .inl h

theorem scanShares_of_ge {D : ℚ} {shares : List RoundShare} {r : ℚ} (h : D ≤ r) (batches k : Nat)
    (v : Double) : scanShares shares (.num D) batches ⟨k, v, .num r⟩ = some ⟨k, v, .num r⟩ := by
  have hge : ¬ (Double.num r < Double.num D) := by simpa using h
  cases batches <;> rw [scanShares, if_neg hge]

theorem scanShares_stopped {D : ℚ} {shares : List (Nat × ℚ)} {batches k : Nat} {sc : Scan}
    (hk : k ≤ shares.length) (hfit : total (shares.take k) ≤ D)
    (h : scanShares (shares.map toShare) (.num D) batches
      ⟨k, 0, .num (total (shares.take k))⟩ = some sc) :
    Stopped D shares sc := by
  induction batches generalizing k with
  | zero =>
    rcases hfit.lt_or_eq with hlt | heq
    · rw [scanShares, if_pos ((Double.num_lt_num _ _).mpr hlt)] at h
      cases h
    · rw [scanShares_of_ge heq.ge] at h
      obtain rfl := Option.some.inj h
      exact .of_eq hk heq
  | succ batches ih =>
    rcases hfit.lt_or_eq with hlt | heq
    · rw [scanShares, if_pos ((Double.num_lt_num _ _).mpr hlt)] at h
      rcases scanBatch_turn hk hfit with ⟨hb, hnext⟩ | ⟨i, hi, hbreak, hb⟩
      · rw [hb] at h
        exact ih (by omega) hnext h
      · rw [hb, scanShares_of_ge le_rfl] at h
        obtain rfl := Option.some.inj h
        exact ⟨rfl, hi.le, .inr ⟨hi, hbreak⟩⟩
    · rw [scanShares_of_ge heq.ge] at h
      obtain rfl := Option.some.inj h
      exact .of_eq hk heq

/-- If every record fits and the records are worth the difficulty, the loop ends after the
last one. -/
theorem scanShares_reaches_end {D : ℚ} {shares : List (Nat × ℚ)} {k : Nat}
    (hk : k ≤ shares.length) (hfit : ∀ j ≤ shares.length, total (shares.take j) ≤ D)
    (hneed : ∀ j < shares.length, total (shares.take j) < D) (hD : total shares = D) :
    ∃ batches, scanShares (shares.map toShare) (.num D) batches
      ⟨k, 0, .num (total (shares.take k))⟩ = some ⟨shares.length, 0, .num D⟩ := by
  rcases hk.lt_or_eq with hlt | rfl
  · rcases scanBatch_turn hk (hfit k hk) with ⟨hb, -⟩ | ⟨i, hi, hbreak, -⟩
    · have hdec : shares.length - (k + min 10 (shares.length - k)) < shares.length - k := by omega
      obtain ⟨batches, h⟩ := scanShares_reaches_end (k := k + min 10 (shares.length - k))
        (by omega) hfit hneed hD
      refine ⟨batches + 1, ?_⟩
      rw [scanShares, if_pos ((Double.num_lt_num _ _).mpr (hneed k hlt)), hb, h]
    · exact absurd (hfit (i + 1) hi) (not_le.mpr hbreak)
  · refine ⟨0, ?_⟩
    rw [List.take_length, hD, scanShares_of_ge le_rfl]
termination_by shares.length - k

/-! ## The shares that are kept -/

theorem keepShares_none {shares : List RoundShare} {sc : Scan} (hv : sc.firstShareValue = 0)
    (hc : sc.removeCount = 0) :
    keepShares shares sc = .set (shares.drop (shares.length - 1)) := by
  simp only [keepShares, hv, hc, ne_eq, not_true_eq_false, ↓reduceIte]
  exact congrArg WindowResult.set (getSharesBetween_last shares)

theorem keepShares_removed {shares : List RoundShare} {sc : Scan} (hc : 0 < sc.removeCount) :
    keepShares shares sc = if sc.firstShareValue ≠ 0 then .outOfBounds else .set [] := by
  simp only [keepShares, getSharesBetween_removed shares hc]

theorem keepShares_first {shares : List RoundShare} {sc : Scan} {kept : List RoundShare}
    (hv : sc.firstShareValue ≠ 0) (hc : sc.removeCount = 0)
    (h : keepShares shares sc = .set kept) : kept.length = 1 := by
  have hlast : getSharesBetween shares (-1) (-1 - (0 : Nat)) = shares.drop (shares.length - 1) :=
    getSharesBetween_last shares
  simp only [keepShares, if_pos hv, hc, hlast] at h
  cases hd : shares.drop (shares.length - 1) with
  | nil => rw [hd] at h; cases h
  | cons first rest =>
    rw [hd] at h
    obtain rfl := WindowResult.set.inj h
    have hlen := congrArg List.length hd
    rw [List.length_drop, List.length_cons] at hlen
    rw [List.length_cons]
    omega

theorem addPendingShares_eq (batches : Nat) (stored pending : List (Nat × ℚ)) :
    addPendingShares batches (stored.map toShare) (pending.map toShare) =
      match scanShares ((stored ++ pending).map toShare) (.num (total pending)) batches
          ⟨0, 0, .num (total ((stored ++ pending).take 0))⟩ with
      | none => .running
      | some sc => keepShares ((stored ++ pending).map toShare) sc := by
  have hsum : (pending.map toShare).foldl (fun sum share => sum + share.diff) 0 =
      .num (total pending) := by
    have := foldl_diff pending 0
    rwa [zero_add] at this
  simp only [addPendingShares, hsum, List.map_append, List.take_zero, total_nil]
  rfl

/-! ## When the window slides -/

/-- With no difficulty to remove, the last record alone is kept. -/
theorem slides_iff_of_total_zero {stored pending : List (Nat × ℚ)} (h : total pending = 0) :
    Slides stored pending ↔ (stored ++ pending).length ≤ 1 := by
  have hset : ∀ batches, addPendingShares batches (stored.map toShare) (pending.map toShare) =
      .set (((stored ++ pending).drop ((stored ++ pending).length - 1)).map toShare) := by
    intro batches
    rw [addPendingShares_eq, h, List.take_zero, total_nil, scanShares_of_ge le_rfl]
    refine (keepShares_none rfl rfl).trans ?_
    rw [List.length_map, List.map_drop]
  simp only [Slides, hset, h, removeOldest_of_nonpos le_rfl, WindowResult.set.injEq,
    exists_const, (List.map_injective_iff.mpr toShare_injective).eq_iff]
  constructor
  · intro heq
    have hlen := congrArg List.length heq
    rw [List.length_drop] at hlen
    omega
  · intro hle
    rw [Nat.sub_eq_zero_of_le hle, List.drop_zero]

/-- The oldest record is never the only one the difficulty comes from. -/
theorem not_slides_of_first {stored pending : List (Nat × ℚ)} {sc : Scan}
    (hpos : 0 < total pending) (hstop : Stopped (total pending) (stored ++ pending) sc)
    (hc : sc.removeCount = 0) :
    keepShares ((stored ++ pending).map toShare) sc ≠
      .set ((removeOldest (total pending) (stored ++ pending)).map toShare) := by
  intro h
  have hv : sc.firstShareValue ≠ 0 := by
    rw [hstop.value, hc, List.take_zero, total_nil, sub_zero]
    intro h₀
    exact hpos.ne' (Double.num.inj h₀)
  have hlen := keepShares_first hv hc h
  rw [List.length_map] at hlen
  cases hL : stored ++ pending with
  | nil => simp [hL, removeOldest] at hlen
  | cons s rest =>
    have hbig : total pending < s.2 := by
      rcases hstop.full with heq | ⟨-, hlt⟩
      · rw [hc, List.take_zero, total_nil] at heq
        exact absurd heq hpos.ne
      · simpa [hL, hc] using hlt
    rw [hL, removeOldest, if_neg (not_le.mpr hpos), if_neg (not_le.mpr hbig), List.length_cons] at hlen
    obtain rfl : rest = [] := List.length_eq_zero_iff.mp (by omega)
    -- the window is then the one pending share, which is worth all of the difficulty
    rcases List.append_eq_singleton_iff.mp hL with ⟨-, rfl⟩ | ⟨-, rfl⟩
    · simp at hbig
    · simp at hpos

/-- With difficulty to remove, the window comes out right only when it is to be emptied. -/
theorem slides_iff_of_total_pos {stored pending : List (Nat × ℚ)} (hpos : 0 < total pending) :
    Slides stored pending ↔ total stored = 0 ∧
      removeOldest (total pending) (stored ++ pending) = [] := by
  have hne : stored ++ pending ≠ [] := by
    intro h
    simp [(List.append_eq_nil_iff.mp h).2] at hpos
  constructor
  · rintro ⟨batches, h⟩
    rw [addPendingShares_eq] at h
    split at h
    · cases h
    · rename_i sc hsc
      have hstop := scanShares_stopped (Nat.zero_le _)
        (by rw [List.take_zero, total_nil]; exact hpos.le) hsc
      rcases Nat.eq_zero_or_pos sc.removeCount with hc | hc
      · exact absurd h (not_slides_of_first hpos hstop hc)
      · rw [keepShares_removed hc] at h
        split at h
        · cases h
        · rename_i hv
          have hnil := List.map_eq_nil_iff.mp (WindowResult.set.inj h).symm
          have htaken : total ((stored ++ pending).take sc.removeCount) = total pending := by
            have hzero := Double.num.inj (hstop.value.symm.trans (not_not.mp hv))
            exact (sub_eq_zero.mp (hzero.trans Nat.cast_zero)).symm
          refine ⟨?_, hnil⟩
          rcases hstop.count_le.lt_or_eq with hlt | heq
          · exact absurd htaken ((removeOldest_eq_nil_iff _ _).mp hnil _ hlt).1.ne
          · rw [heq, List.take_length, total_append] at htaken
            linarith
  · rintro ⟨hstored, hnil⟩
    have hrec := (removeOldest_eq_nil_iff _ _).mp hnil
    have hfit : ∀ j ≤ (stored ++ pending).length,
        total ((stored ++ pending).take j) ≤ total pending := by
      intro j hj
      cases j with
      | zero => rw [List.take_zero, total_nil]; exact hpos.le
      | succ j => exact (hrec j hj).2
    obtain ⟨batches, h⟩ := scanShares_reaches_end (Nat.zero_le _) hfit (fun j hj => (hrec j hj).1)
      (by rw [total_append, hstored, zero_add])
    refine ⟨batches, ?_⟩
    rw [addPendingShares_eq, h, hnil]
    refine (keepShares_removed (List.length_pos_iff.mpr hne)).trans ?_
    rfl

/-- The last pending share is needed when it is worth something. -/
theorem total_take_lt_iff {pending : List (Nat × ℚ)} (h : ∀ s ∈ pending, 0 ≤ s.2)
    (hpos : 0 < total pending) :
    (∀ j < pending.length, total (pending.take j) < total pending) ↔
      ∀ s ∈ pending.getLast?, 0 < s.2 := by
  rcases List.eq_nil_or_concat pending with rfl | ⟨front, last, rfl⟩
  · simp at hpos
  · simp only [List.concat_eq_append, List.getLast?_append, List.getLast?_singleton,
      Option.some_or, Option.mem_some, forall_eq', List.length_append, List.length_singleton,
      total_append, total_cons, total_nil, add_zero]
    constructor
    · intro hall
      have := hall front.length (by omega)
      rw [List.take_left] at this
      linarith
    · intro hlast j hj
      rw [List.take_append_of_le_length (by omega)]
      have hfront : ∀ s ∈ front, 0 ≤ s.2 := fun s hs => h s (by simp [hs])
      have := total_take_le hfront j
      linarith

/-- The stored shares are worth nothing in all, and each record is needed in turn. -/
theorem removeOldest_append_eq_nil_iff {stored pending : List (Nat × ℚ)}
    (h : ∀ s ∈ pending, 0 ≤ s.2) (hpos : 0 < total pending) (hstored : total stored = 0) :
    removeOldest (total pending) (stored ++ pending) = [] ↔
      (∀ i ≤ stored.length, total (stored.take i) < total pending) ∧
        ∀ s ∈ pending.getLast?, 0 < s.2 := by
  have hleft : ∀ i ≤ stored.length, (stored ++ pending).take i = stored.take i :=
    fun i hi => List.take_append_of_le_length hi
  have hright : ∀ j, total ((stored ++ pending).take (stored.length + j)) =
      total (pending.take j) := by
    intro j
    rw [List.take_length_add_append, total_append, hstored, zero_add]
  have hne : 0 < pending.length := List.length_pos_iff.mpr (by rintro rfl; simp at hpos)
  rw [removeOldest_eq_nil_iff, ← total_take_lt_iff h hpos, List.length_append]
  constructor
  · intro hall
    refine ⟨fun i hi => ?_, fun j hj => ?_⟩
    · rw [← hleft i hi]
      exact (hall i (by omega)).1
    · rw [← hright j]
      exact (hall (stored.length + j) (by omega)).1
  · rintro ⟨hs, hp⟩ j hj
    have hfit : ∀ i ≤ stored.length + pending.length,
        total ((stored ++ pending).take i) ≤ total pending := by
      intro i hi
      rcases Nat.lt_or_ge i stored.length with hlt | hge
      · rw [hleft i hlt.le]
        exact (hs i hlt.le).le
      · obtain ⟨i, rfl⟩ := Nat.exists_eq_add_of_le hge
        rw [hright i]
        exact total_take_le h i
    refine ⟨?_, hfit (j + 1) hj⟩
    rcases Nat.lt_or_ge j stored.length with hlt | hge
    · rw [hleft j hlt.le]
      exact hs j hlt.le
    · obtain ⟨j, rfl⟩ := Nat.exists_eq_add_of_le hge
      rw [hright j]
      exact hp j (by omega)

/-- The window slides in two cases only: there is no difficulty to remove and at most one
record, or every record goes. -/
theorem slides_iff {stored pending : List (Nat × ℚ)} (h : ∀ s ∈ pending, 0 ≤ s.2) :
    Slides stored pending ↔
      (total pending = 0 ∧ stored.length + pending.length ≤ 1) ∨
      (0 < total pending ∧ total stored = 0 ∧
        (∀ i ≤ stored.length, total (stored.take i) < total pending) ∧
        ∀ s ∈ pending.getLast?, 0 < s.2) := by
  have hnonneg : 0 ≤ total pending := by
    simpa using total_take_le h 0
  rcases hnonneg.eq_or_lt with hzero | hpos
  · rw [slides_iff_of_total_zero hzero.symm, List.length_append]
    exact ⟨fun hle => .inl ⟨hzero.symm, hle⟩,
      fun hor => hor.elim (·.2) fun hp => absurd hp.1 hzero.not_lt⟩
  · rw [slides_iff_of_total_pos hpos]
    constructor
    · rintro ⟨hstored, hnil⟩
      exact .inr ⟨hpos, hstored, (removeOldest_append_eq_nil_iff h hpos hstored).mp hnil⟩
    · rintro (⟨hz, -⟩ | ⟨-, hstored, hcond⟩)
      · exact absurd hz hpos.ne'
      · exact ⟨hstored, (removeOldest_append_eq_nil_iff h hpos hstored).mpr hcond⟩

/-- A window of shares that are worth nothing is emptied, as it should be. -/
theorem slides_worthless : Slides [(1, 0), (2, 0)] [(7, 3), (8, 2)] := by
  refine (slides_iff (by simp)).mpr (.inr ⟨by norm_num, by norm_num, ?_, by simp⟩)
  intro i hi
  rcases i with _ | _ | _ | i
  · norm_num
  · norm_num
  · norm_num
  · simp at hi

/-- With nothing pending, and with a share that takes a part of the oldest, only the last
record stays. -/
theorem stored_share_lost :
    (addPendingShares 1 ([(1, 5), (2, 7)].map toShare) [] = .set ([(2, 7)].map toShare) ∧
      ¬ Slides [(1, 5), (2, 7)] []) ∧
    (addPendingShares 1 ([(1, 5), (2, 7)].map toShare) ([(3, 4)].map toShare) =
        .set ([(3, 4)].map toShare) ∧
      ¬ Slides [(1, 5), (2, 7)] [(3, 4)]) := by
  refine ⟨⟨by decide +kernel, fun h => ?_⟩, by decide +kernel, fun h => ?_⟩
  · have hle := (slides_iff_of_total_zero total_nil).mp h
    exact absurd hle (by decide)
  · have hstored := ((slides_iff_of_total_pos (by norm_num)).mp h).1
    norm_num at hstored

end SickPool.Round
