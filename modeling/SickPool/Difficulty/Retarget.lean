import SickPool.Difficulty.ShareTimes
import Mathlib.Tactic.Positivity
import Mathlib.Tactic.Linarith
import Mathlib.Tactic.Push

/-!
# The new difficulty

The difficulty is multiplied by a rate of averages, by the half when the window has no
shares, or by one over the number of retargets when there never was one. Over any calls
the running average is a number that is not negative, so that `Adjust` returns a positive
difficulty or the 0 that stands for no change.
-/
namespace SickPool.Difficulty

open SickPool.Library SickPool.Library.Run SickPool.Persistence

namespace VarDiff

/-- What every sequence of calls keeps of the state `Adjust` divides by. -/
structure Averages (v : VarDiff) : Prop where
  records : ∃ times, v.Records times
  retargetSum : ∃ q : ℚ, 0 ≤ q ∧ v.retargetSum = .num q

theorem Averages.pos_pos {v : VarDiff} (h : v.Averages) (hsum : v.sum ≠ 0) : 0 < v.pos := by
  obtain ⟨times, hrecords⟩ := h.records
  exact hrecords.pos_pos hsum

theorem Averages.currentShareTime {v : VarDiff} (h : v.Averages) :
    ∃ c : ℚ, 0 ≤ c ∧ v.currentShareTime = .num c := by
  by_cases hsum : v.sum = 0
  · refine ⟨0, le_refl 0, ?_⟩
    rw [VarDiff.currentShareTime, if_neg (not_not.mpr hsum)]
    exact congrArg Double.num Nat.cast_zero
  · exact ⟨_, by positivity, currentShareTime_of_sum_ne hsum (h.pos_pos hsum)⟩

theorem Averages.retargeted {v : VarDiff} (h : v.Averages) : v.retargeted.Averages := by
  obtain ⟨times, hrecords⟩ := h.records
  obtain ⟨q, hq, hsum⟩ := h.retargetSum
  obtain ⟨c, hc, hcur⟩ := h.currentShareTime
  refine ⟨⟨times, hrecords.retargeted⟩, q + c, by positivity, ?_⟩
  show v.retargetSum + v.currentShareTime = _
  rw [hsum, hcur, Double.num_add_num]

theorem Averages.add {v : VarDiff} (h : v.Averages) (t : Nat) : (v.add t).Averages := by
  obtain ⟨times, hrecords⟩ := h.records
  exact ⟨⟨_, hrecords.add t⟩, h.retargetSum⟩

theorem Averages.new (rate : Double) (retargetInterval : Nat) :
    (VarDiff.new rate retargetInterval).Averages :=
  ⟨⟨[], Records.new rate retargetInterval⟩, 0, le_refl 0, congrArg Double.num Nat.cast_zero⟩

theorem averages_after (rate : Double) (retargetInterval : Nat) (calls : List Call) :
    (after rate retargetInterval calls).Averages :=
  after_invariant (Averages.new rate retargetInterval) (fun _ t h => h.add t)
    (fun _ h => h.retargeted) calls

/-- Each `Adjust` counts one retarget at most. -/
theorem retargetCount_after (rate : Double) (retargetInterval : Nat) (calls : List Call) :
    (after rate retargetInterval calls).retargetCount ≤ calls.length := by
  induction calls using List.reverseRecOn with
  | nil => exact Nat.le_refl 0
  | append_singleton calls call ih =>
    rw [after, run_append, List.length_append, List.length_singleton]
    generalize hv : run step (VarDiff.new rate retargetInterval) calls = v
    rw [after, hv] at ih
    cases call with
    | add t => exact Nat.le_succ_of_le ih
    | adjust currentDiff curtime lastAdjusted =>
      rw [run_cons, run_nil, step_adjust]
      apply leftBy_adjust (P := fun v => v.retargetCount ≤ calls.length + 1)
      · exact Nat.le_succ_of_le ih
      · show (v.retargetCount + 1) % uint64Size ≤ calls.length + 1
        exact (Nat.mod_le (v.retargetCount + 1) uint64Size).trans (Nat.succ_le_succ ih)

/-! ## The multiplier -/

theorem sixty_eq_num : (60 : Double) = .num 60 := congrArg Double.num (Nat.cast_ofNat)

theorem Averages.retargetSum_pos {v : VarDiff} (h : v.Averages) (hne : v.retargetSum ≠ 0) :
    ∃ q : ℚ, 0 < q ∧ v.retargetSum = .num q := by
  obtain ⟨q, hq, hsum⟩ := h.retargetSum
  refine ⟨q, lt_of_le_of_ne hq ?_, hsum⟩
  intro h0
  exact hne (by rw [hsum, ← h0, Double.zero_eq_num])

/-- With a count that has not wrapped to 0 the multiplier is a positive number. -/
theorem Averages.diffMultiplier_pos {v : VarDiff} (h : v.Averages) {r : ℚ} (hr : 0 < r)
    (hrate : v.targetShareRate = .num r) (hcount : v.retargetCount ≠ 0)
    (currentShareTime : Double) :
    ∃ m : ℚ, 0 < m ∧ v.diffMultiplier currentShareTime = .num m := by
  have hcount' : (0 : ℚ) < v.retargetCount := by exact_mod_cast Nat.pos_of_ne_zero hcount
  unfold diffMultiplier
  by_cases hzero : v.retargetSum = 0
  · rw [if_pos hzero, Double.one_eq_num, Double.num_div_num, if_neg hcount'.ne']
    exact ⟨1 / v.retargetCount, by positivity, rfl⟩
  · rw [if_neg hzero]
    obtain ⟨q, hq, hsum⟩ := h.retargetSum_pos hzero
    by_cases hcur : currentShareTime = 0
    · rw [if_pos hcur]
      exact ⟨1 / 2, by norm_num, rfl⟩
    · have hmean : 0 < q / v.retargetCount := by positivity
      rw [if_neg hcur, hsum, hrate, sixty_eq_num, Double.num_div_num, if_neg hcount'.ne',
        Double.num_div_num, if_neg hmean.ne', Double.num_div_num, if_neg hr.ne']
      exact ⟨60 / (q / v.retargetCount) / r, by positivity, rfl⟩

/-- With a count of 0 it is 0, the half or infinite. -/
theorem Averages.diffMultiplier_wrapped {v : VarDiff} (h : v.Averages) {r : ℚ} (hr : 0 < r)
    (hrate : v.targetShareRate = .num r) (hcount : v.retargetCount = 0)
    (currentShareTime : Double) :
    v.diffMultiplier currentShareTime = .num 0 ∨
      v.diffMultiplier currentShareTime = .num (1 / 2) ∨
      v.diffMultiplier currentShareTime = .posInf := by
  have hcount' : (v.retargetCount : ℚ) = 0 := by exact_mod_cast hcount
  unfold diffMultiplier
  by_cases hzero : v.retargetSum = 0
  · rw [if_pos hzero, Double.one_eq_num, Double.num_div_num, if_pos hcount']
    exact .inr (.inr (if_pos one_pos))
  · rw [if_neg hzero]
    obtain ⟨q, hq, hsum⟩ := h.retargetSum_pos hzero
    by_cases hcur : currentShareTime = 0
    · rw [if_pos hcur]
      exact .inr (.inl rfl)
    · left
      rw [if_neg hcur, hsum, hrate, sixty_eq_num, Double.num_div_num, if_pos hcount',
        Double.infOf, if_pos hq]
      show Double.num 0 / Double.num r = Double.num 0
      rw [Double.num_div_num, if_neg hr.ne', zero_div]

/-! ## The result -/

/-- The difference from an infinite difficulty is no number, and no more than a tenth. -/
theorem not_varies_posInf (v : VarDiff) : ¬ v.Varies .posInf := by
  have hnan : ∀ d : Double, (d - .posInf).abs / .posInf = .nan := by
    intro d
    cases d <;> rfl
  rw [Varies, hnan]
  exact Bool.false_ne_true

theorem Varies.exists_num {v : VarDiff} {currentDiff : Double} (h : v.Varies currentDiff)
    (hcur : 0 < currentDiff) : ∃ c : ℚ, 0 < c ∧ currentDiff = .num c := by
  cases currentDiff with
  | num c =>
    rw [Double.zero_eq_num, Double.num_lt_num] at hcur
    exact ⟨c, hcur, rfl⟩
  | posInf => exact absurd h v.not_varies_posInf
  | negInf => exact absurd hcur Bool.false_ne_true
  | nan => exact absurd hcur Bool.false_ne_true

/-- The new difficulty is positive as long as the count of retargets has not wrapped. -/
theorem Averages.newDiff_pos {v : VarDiff} (h : v.Averages) {r c : ℚ} (hr : 0 < r)
    (hrate : v.targetShareRate = .num r) (hc : 0 < c)
    (hcount : v.retargeted.retargetCount ≠ 0) : 0 < v.newDiff (.num c) := by
  obtain ⟨m, hm, heq⟩ := h.retargeted.diffMultiplier_pos hr hrate hcount v.currentShareTime
  rw [newDiff, heq, Double.num_mul_num, Double.zero_eq_num, Double.num_lt_num]
  positivity

theorem Averages.newDiff_nonneg {v : VarDiff} (h : v.Averages) {r c : ℚ} (hr : 0 < r)
    (hrate : v.targetShareRate = .num r) (hc : 0 < c) :
    v.newDiff (.num c) = 0 ∨ 0 < v.newDiff (.num c) := by
  by_cases hcount : v.retargeted.retargetCount = 0
  · rw [newDiff]
    rcases h.retargeted.diffMultiplier_wrapped hr hrate hcount v.currentShareTime with
      heq | heq | heq
    · left
      rw [heq, Double.num_mul_num, mul_zero, Double.zero_eq_num]
    · right
      rw [heq, Double.num_mul_num, Double.zero_eq_num, Double.num_lt_num]
      positivity
    · right
      rw [heq]
      show 0 < Double.infOf c
      rw [Double.infOf, if_pos hc]
      rfl
  · exact .inr (h.newDiff_pos hr hrate hc hcount)

/-- A difficulty that may be handed to a client: not 0, and more than a tenth away from the
current one. -/
structure Changed (currentDiff newDiff : Double) : Prop where
  pos : 0 < newDiff
  varies : .num (1 / 10) < (newDiff - currentDiff).abs / currentDiff

/-- `Adjust` returns 0 or a positive difficulty that differs by more than a tenth. -/
theorem Averages.adjust_result {v : VarDiff} (h : v.Averages) {r : ℚ} (hr : 0 < r)
    (hrate : v.targetShareRate = .num r) {currentDiff : Double} (hcur : 0 < currentDiff)
    (curtime lastAdjusted : Nat) :
    (v.adjust currentDiff curtime lastAdjusted).2 = 0 ∨
      Changed currentDiff (v.adjust currentDiff curtime lastAdjusted).2 := by
  by_cases hearly : v.tooEarly (sub64 curtime lastAdjusted / 1000)
  · rw [adjust_early hearly]
    exact .inl rfl
  · rw [adjust_due hearly]
    by_cases hvaries : v.Varies currentDiff
    · rw [if_pos hvaries]
      obtain ⟨c, hc, rfl⟩ := hvaries.exists_num hcur
      rcases h.newDiff_nonneg hr hrate hc with h0 | hpos
      · exact .inl h0
      · exact .inr ⟨hpos, hvaries⟩
    · rw [if_neg hvaries]
      exact .inl rfl

/-- As long as the count of retargets has not wrapped, 0 is returned for no change only: too
early, or a new difficulty within a tenth of the current one. -/
theorem Averages.adjust_eq_zero_iff {v : VarDiff} (h : v.Averages) {r : ℚ} (hr : 0 < r)
    (hrate : v.targetShareRate = .num r) {currentDiff : Double} (hcur : 0 < currentDiff)
    (curtime lastAdjusted : Nat) (hcount : v.retargeted.retargetCount ≠ 0) :
    (v.adjust currentDiff curtime lastAdjusted).2 = 0 ↔
      v.tooEarly (sub64 curtime lastAdjusted / 1000) ∨ ¬ v.Varies currentDiff := by
  by_cases hearly : v.tooEarly (sub64 curtime lastAdjusted / 1000)
  · rw [adjust_early hearly]
    exact iff_of_true rfl (.inl hearly)
  · rw [adjust_due hearly, or_iff_right hearly]
    by_cases hvaries : v.Varies currentDiff
    · rw [if_pos hvaries]
      obtain ⟨c, hc, rfl⟩ := hvaries.exists_num hcur
      have hpos := h.newDiff_pos hr hrate hc hcount
      apply iff_of_false _ (not_not.mpr hvaries)
      show v.newDiff (.num c) ≠ 0
      intro h0
      rw [h0] at hpos
      exact absurd hpos (by decide)
    · rw [if_neg hvaries]
      exact iff_of_true rfl hvaries

/-! ## The first retargets -/

theorem retargeted_retargetSum_idle {v : VarDiff} (hsum : v.sum = 0) (hret : v.retargetSum = 0) :
    v.retargeted.retargetSum = 0 := by
  show v.retargetSum + v.currentShareTime = 0
  rw [hret, currentShareTime, if_neg (not_not.mpr hsum), add_zero]

theorem retargeted_retargetCount {v : VarDiff} (h : v.retargetCount + 1 < uint64Size) :
    v.retargeted.retargetCount = v.retargetCount + 1 := by
  show (v.retargetCount + 1) % uint64Size = v.retargetCount + 1
  exact Nat.mod_eq_of_lt h

/-- Without a share so far the difficulty is divided by the number of retargets. -/
theorem newDiff_idle {v : VarDiff} (hsum : v.sum = 0) (hret : v.retargetSum = 0)
    (hcount : v.retargetCount + 1 < uint64Size) (d : ℚ) :
    v.newDiff (.num d) = .num (d * (1 / (v.retargetCount + 1 : Nat))) := by
  have hne : ((v.retargetCount + 1 : Nat) : ℚ) ≠ 0 := Nat.cast_ne_zero.mpr (Nat.succ_ne_zero _)
  rw [newDiff, diffMultiplier, if_pos (retargeted_retargetSum_idle hsum hret),
    retargeted_retargetCount hcount, Double.one_eq_num, Double.num_div_num, if_neg hne,
    Double.num_mul_num]

/-- What a first retarget multiplies the difficulty by, after one share of `s` milliseconds. -/
def firstFactor (r : ℚ) (s : Nat) : ℚ := if s = 0 then 1 else 60000 / (s * r)

theorem firstFactor_pos {r : ℚ} (hr : 0 < r) (s : Nat) : 0 < firstFactor r s := by
  unfold firstFactor
  split
  · exact one_pos
  · have hs : (0 : ℚ) < s := by exact_mod_cast Nat.pos_of_ne_zero ‹_›
    positivity

/-- A share of one or of two milliseconds changes the difficulty, whatever the rate. -/
theorem exists_firstFactor_varies (r : ℚ) :
    ∃ s, s ≤ 2 ∧ 1 / 10 < |firstFactor r s - 1| := by
  by_contra hnone
  push Not at hnone
  have hone := hnone 1 (by decide)
  have htwo := hnone 2 (by decide)
  have hhalf : firstFactor r 2 = firstFactor r 1 / 2 := by
    simp only [firstFactor, one_ne_zero, two_ne_zero, ↓reduceIte]
    rw [Nat.cast_one, Nat.cast_ofNat, one_mul, div_div, mul_comm]
  rw [hhalf] at htwo
  rw [abs_le] at hone htwo
  linarith [hone.2, htwo.1]

/-- A factor that changes the difficulty tells the length of the share. -/
theorem firstFactor_inj {r : ℚ} (hr : 0 < r) {s s' : Nat}
    (hvaries : 1 / 10 < |firstFactor r s - 1|) (h : firstFactor r s = firstFactor r s') :
    s = s' := by
  have hne : ∀ t, firstFactor r s = firstFactor r t → t ≠ 0 := by
    intro t ht h0
    rw [ht, firstFactor, if_pos h0] at hvaries
    norm_num at hvaries
  have hs := hne s rfl
  have hs' := hne s' h
  have hsr : (s * r : ℚ) ≠ 0 := mul_ne_zero (Nat.cast_ne_zero.mpr hs) hr.ne'
  have hsr' : (s' * r : ℚ) ≠ 0 := mul_ne_zero (Nat.cast_ne_zero.mpr hs') hr.ne'
  rw [firstFactor, firstFactor, if_neg hs, if_neg hs', div_eq_div_iff hsr hsr',
    mul_right_inj' (by norm_num : (60000 : ℚ) ≠ 0), mul_left_inj' hr.ne', Nat.cast_inj] at h
  exact h.symm

theorem newDiff_first {v : VarDiff} {r : ℚ} (hr : 0 < r) (hrate : v.targetShareRate = .num r)
    (hpos : v.pos = 1) (hret : v.retargetSum = 0) (hcount : v.retargetCount = 0) (d : ℚ) :
    v.newDiff (.num d) = .num (d * firstFactor r v.sum) := by
  unfold firstFactor
  split
  · rename_i hsum
    rw [newDiff_idle hsum hret (by rw [hcount]; decide), hcount]
    norm_num
  · rename_i hsum
    have hs : (0 : ℚ) < v.sum := by exact_mod_cast Nat.pos_of_ne_zero hsum
    have hcur : v.currentShareTime = .num (v.sum / 1000) := by
      rw [currentShareTime_of_sum_ne hsum (by omega), hpos, Nat.cast_one, div_one]
    have hret' : v.retargeted.retargetSum = .num (v.sum / 1000) := by
      show v.retargetSum + v.currentShareTime = _
      rw [hret, hcur, zero_add]
    have hcount' : v.retargeted.retargetCount = 1 := by
      rw [retargeted_retargetCount (by rw [hcount]; decide), hcount]
    have hq : (v.sum / 1000 : ℚ) ≠ 0 := by positivity
    have hne : (Double.num (v.sum / 1000)) ≠ 0 := by
      rw [Double.zero_eq_num, ne_eq, Double.num.injEq]
      exact hq
    have hrate' : v.retargeted.targetShareRate = .num r := hrate
    rw [newDiff, diffMultiplier, hret', hcount', hrate', hcur, if_neg hne, if_neg hne,
      sixty_eq_num, Nat.cast_one, Double.num_div_num, if_neg one_ne_zero, div_one,
      Double.num_div_num, if_neg hq, Double.num_div_num, if_neg hr.ne', Double.num_mul_num]
    congr 2
    field_simp
    norm_num

/-- Whether a multiple of the difficulty is far enough from it. -/
theorem varies_iff {v : VarDiff} {d m : ℚ} (hd : 0 < d)
    (h : v.newDiff (.num d) = .num (d * m)) : v.Varies (.num d) ↔ 1 / 10 < |m - 1| := by
  have hratio : |d * m - d| / d = |m - 1| := by
    rw [← mul_sub_one, abs_mul, abs_of_pos hd, mul_div_cancel_left₀ _ hd.ne']
  rw [Varies, h, Double.num_sub_num]
  show Double.num (1 / 10) < Double.num |d * m - d| / Double.num d ↔ _
  rw [Double.num_div_num, if_neg hd.ne', Double.num_lt_num, hratio]

end VarDiff
end SickPool.Difficulty
