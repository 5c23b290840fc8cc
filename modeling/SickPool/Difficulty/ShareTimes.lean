import SickPool.Difficulty.VarDiff
import SickPool.Library.Ring
import SickPool.Library.Run
import Mathlib.Data.Nat.ModEq
import Mathlib.Tactic.FieldSimp

/-!
# What the share times measure

`pos` is both where `Add` writes next and how many times `Adjust` divides by. The ring
and its sum always stand for the last ten times added; `pos` is their number until the
ring is full, and after that only when it is full to its end.
-/
namespace SickPool.Difficulty

open SickPool.Library SickPool.Library.Run SickPool.Persistence

theorem sub64_modEq (a b : Nat) : sub64 a b + b ≡ a [MOD uint64Size] := by
  have hb : b % uint64Size < uint64Size := Nat.mod_lt b (by decide)
  have hsub : a + uint64Size - b % uint64Size + b % uint64Size = a + uint64Size := by omega
  calc sub64 a b + b
      ≡ (a + uint64Size - b % uint64Size) + b % uint64Size [MOD uint64Size] :=
        (Nat.mod_modEq _ _).add (Nat.mod_modEq _ _).symm
    _ = a + uint64Size := hsub
    _ ≡ a [MOD uint64Size] := Nat.add_modEq_right

theorem sub64_lt (a b : Nat) : sub64 a b < uint64Size := Nat.mod_lt _ (by decide)

theorem sub64_congr (a : Nat) {b b' : Nat} (h : b ≡ b' [MOD uint64Size]) :
    sub64 a b = sub64 a b' := by
  rw [sub64, sub64, h]

/-- The difference is the one number below 2^64 that leads from `b` to `a`. -/
theorem sub64_eq_of_modEq {a b s : Nat} (hs : s < uint64Size) (h : a ≡ s + b [MOD uint64Size]) :
    sub64 a b = s := by
  have hmod := ((sub64_modEq a b).trans h).add_right_cancel' b
  rwa [Nat.ModEq, Nat.mod_eq_of_lt hs, Nat.mod_eq_of_lt (sub64_lt a b)] at hmod

/-- The difference from a fixed time tells the earlier one modulo 2^64. -/
theorem modEq_of_sub64 {a b b' : Nat} (h : sub64 a b = sub64 a b') : b ≡ b' [MOD uint64Size] := by
  have hb' := sub64_modEq a b'
  rw [← h] at hb'
  exact ((sub64_modEq a b).trans hb'.symm).add_left_cancel' _

theorem sub64_add_self (a : Nat) {s : Nat} (hs : s < uint64Size) : sub64 (a + s) a = s :=
  sub64_eq_of_modEq hs (by rw [Nat.add_comm])

theorem sub64_self (a : Nat) : sub64 a a = 0 :=
  sub64_eq_of_modEq (by decide) (by rw [Nat.zero_add])

/-- Two earlier times that differ modulo 2^64: there is a time that is `d` or more after both,
and one that is so after just one of them. -/
theorem exists_sub64_times {a b d : Nat} (hpos : 0 < d) (hd : 2 * d < uint64Size)
    (hne : ¬ a ≡ b [MOD uint64Size]) :
    ∃ t t', d ≤ sub64 t a ∧ d ≤ sub64 t b ∧ ¬ (d ≤ sub64 t' a ↔ d ≤ sub64 t' b) := by
  generalize hx : sub64 a b = x
  have hmod : x + b ≡ a [MOD uint64Size] := by rw [← hx]; exact sub64_modEq a b
  have hxlt : x < uint64Size := by rw [← hx]; exact sub64_lt a b
  have hx0 : x ≠ 0 := by
    intro h0
    rw [h0, Nat.zero_add] at hmod
    exact hne hmod.symm
  have hwrap : ∀ c, c + uint64Size ≡ c [MOD uint64Size] := fun c => Nat.add_modEq_right
  obtain ⟨t, hta, htb⟩ : ∃ t, d ≤ sub64 t a ∧ d ≤ sub64 t b := by
    by_cases hle : x ≤ d
    · refine ⟨a + d, by rw [sub64_add_self a (by omega)], ?_⟩
      rw [sub64_eq_of_modEq (a := a + d) (b := b) (s := x + d) (by omega)]
      · omega
      · calc a + d ≡ x + b + d [MOD uint64Size] := hmod.symm.add_right d
          _ = x + d + b := by omega
    · refine ⟨a + (uint64Size - 1), by rw [sub64_add_self a (by omega)]; omega, ?_⟩
      rw [sub64_eq_of_modEq (a := a + (uint64Size - 1)) (b := b) (s := x - 1) (by omega)]
      · omega
      · calc a + (uint64Size - 1) ≡ x + b + (uint64Size - 1) [MOD uint64Size] :=
              hmod.symm.add_right _
          _ = x - 1 + b + uint64Size := by omega
          _ ≡ x - 1 + b [MOD uint64Size] := hwrap _
  by_cases hlt : x < d
  · refine ⟨t, b, hta, htb, ?_⟩
    rw [sub64_self, sub64_eq_of_modEq (a := b) (b := a) (s := uint64Size - x) (by omega)]
    · omega
    · calc b ≡ b + uint64Size [MOD uint64Size] := (hwrap b).symm
        _ = uint64Size - x + (x + b) := by omega
        _ ≡ uint64Size - x + a [MOD uint64Size] := hmod.add_left _
  · refine ⟨t, a, hta, htb, ?_⟩
    rw [sub64_self, hx]
    omega

/-- A call on a `VarDiff`. -/
inductive Call where
  | add (t : Nat)
  | adjust (currentDiff : Double) (curtime lastAdjusted : Nat)

namespace Call

/-- The time a call adds. -/
def time? : Call → Option Nat
  | add t => some t
  | adjust .. => none

end Call

/-- The times added by a sequence of calls, oldest first. -/
def addedTimes (calls : List Call) : List Nat := calls.filterMap Call.time?

namespace VarDiff

/-- The object `Adjust` leaves behind. -/
def leftBy (adjusted : VarDiff × Double) : VarDiff := adjusted.1

def step (v : VarDiff) : Call → VarDiff
  | .add t => v.add t
  | .adjust currentDiff curtime lastAdjusted => leftBy (v.adjust currentDiff curtime lastAdjusted)

theorem step_adjust (v : VarDiff) (currentDiff : Double) (curtime lastAdjusted : Nat) :
    v.step (.adjust currentDiff curtime lastAdjusted) =
      leftBy (v.adjust currentDiff curtime lastAdjusted) :=
  rfl

/-- A fresh object after a sequence of calls. -/
def after (rate : Double) (retargetInterval : Nat) (calls : List Call) : VarDiff :=
  run step (new rate retargetInterval) calls

/-! ## The parts of `Adjust` -/

/-- The running average with the current share time taken in. -/
def retargeted (v : VarDiff) : VarDiff :=
  { v with
    retargetSum := v.retargetSum + v.currentShareTime
    retargetCount := (v.retargetCount + 1) % uint64Size }

/-- `diff_multiplier`, computed from the running average. -/
def diffMultiplier (v : VarDiff) (currentShareTime : Double) : Double :=
  if v.retargetSum = 0 then 1 / .num v.retargetCount
  else if currentShareTime = 0 then .num (1 / 2)
  else 60 / (v.retargetSum / .num v.retargetCount) / v.targetShareRate

/-- `new_diff`. -/
def newDiff (v : VarDiff) (currentDiff : Double) : Double :=
  currentDiff * v.retargeted.diffMultiplier v.currentShareTime

/-- `variance_ratio` is above one tenth. -/
def Varies (v : VarDiff) (currentDiff : Double) : Prop :=
  .num (1 / 10) < (v.newDiff currentDiff - currentDiff).abs / currentDiff

instance (v : VarDiff) (currentDiff : Double) : Decidable (v.Varies currentDiff) :=
  inferInstanceAs (Decidable (_ < _))

theorem adjust_eq (v : VarDiff) (currentDiff : Double) (curtime lastAdjusted : Nat) :
    v.adjust currentDiff curtime lastAdjusted =
      if v.tooEarly (sub64 curtime lastAdjusted / 1000) then (v, 0)
      else (v.retargeted, if v.Varies currentDiff then v.newDiff currentDiff else 0) := by
  show (if v.tooEarly (sub64 curtime lastAdjusted / 1000) then (v, 0)
    else if v.Varies currentDiff then (v.retargeted, v.newDiff currentDiff)
    else (v.retargeted, 0)) = _
  by_cases hvaries : v.Varies currentDiff
  · rw [if_pos hvaries, if_pos hvaries]
  · rw [if_neg hvaries, if_neg hvaries]

theorem adjust_early {v : VarDiff} {currentDiff : Double} {curtime lastAdjusted : Nat}
    (h : v.tooEarly (sub64 curtime lastAdjusted / 1000)) :
    v.adjust currentDiff curtime lastAdjusted = (v, 0) := by
  rw [adjust_eq, if_pos h]

theorem adjust_due {v : VarDiff} {currentDiff : Double} {curtime lastAdjusted : Nat}
    (h : ¬ v.tooEarly (sub64 curtime lastAdjusted / 1000)) :
    v.adjust currentDiff curtime lastAdjusted =
      (v.retargeted, if v.Varies currentDiff then v.newDiff currentDiff else 0) := by
  rw [adjust_eq, if_neg h]

/-- `leftBy` after `Adjust`, by the two ways through it. -/
theorem leftBy_adjust {P : VarDiff → Prop} {v : VarDiff} (hearly : P v) (hdue : P v.retargeted)
    (currentDiff : Double) (curtime lastAdjusted : Nat) :
    P (leftBy (v.adjust currentDiff curtime lastAdjusted)) := by
  by_cases h : v.tooEarly (sub64 curtime lastAdjusted / 1000)
  · rw [adjust_early h]
    exact hearly
  · rw [adjust_due h]
    exact hdue

/-- A property that `Add` and the running average keep holds after any calls. -/
theorem after_invariant {P : VarDiff → Prop} {rate : Double} {retargetInterval : Nat}
    (hnew : P (new rate retargetInterval)) (hadd : ∀ v t, P v → P (v.add t))
    (hdue : ∀ v, P v → P v.retargeted) (calls : List Call) :
    P (after rate retargetInterval calls) := by
  refine invariant (fun v call hv _ => ?_) hnew (guarded_true step _ calls)
  cases call with
  | add t => exact hadd v t hv
  | adjust currentDiff curtime lastAdjusted =>
    exact leftBy_adjust hv (hdue v hv) currentDiff curtime lastAdjusted

theorem after_retargetInterval (rate : Double) (retargetInterval : Nat) (calls : List Call) :
    (after rate retargetInterval calls).retargetInterval = retargetInterval :=
  after_invariant (P := fun v => v.retargetInterval = retargetInterval) rfl (fun _ _ h => h)
    (fun _ h => h) calls

theorem after_targetShareRate (rate : Double) (retargetInterval : Nat) (calls : List Call) :
    (after rate retargetInterval calls).targetShareRate = rate :=
  after_invariant (P := fun v => v.targetShareRate = rate) rfl (fun _ _ h => h)
    (fun _ h => h) calls

/-! ## The ring and its sum -/

/-- What the ring, its sum and `pos` are after `times` have been added. -/
structure Records (v : VarDiff) (times : List Nat) : Prop where
  pos_eq : v.pos = if times.length = 0 then 0 else (times.length - 1) % 10 + 1
  ring_eq : v.shareTimes.toList.rotate times.length = (List.replicate 10 0 ++ times).rtake 10
  sum_eq : v.sum = v.shareTimes.toList.sum % uint64Size

theorem Records.new (rate : Double) (retargetInterval : Nat) :
    (VarDiff.new rate retargetInterval).Records [] :=
  ⟨rfl, rfl, rfl⟩

/-- `Add` writes where the oldest of the last ten times stands. -/
theorem Records.slot_eq {v : VarDiff} {times : List Nat} (h : v.Records times) :
    (v.slot : Nat) = times.length % 10 := by
  have hpos := h.pos_eq
  unfold slot
  by_cases h0 : times.length = 0
  · rw [if_pos h0] at hpos
    rw [dif_pos (by omega)]
    show v.pos = times.length % 10
    omega
  · rw [if_neg h0] at hpos
    split
    · show v.pos = times.length % 10
      omega
    · show 0 = times.length % 10
      omega

theorem Records.add {v : VarDiff} {times : List Nat} (h : v.Records times) (t : Nat) :
    (v.add t).Records (times ++ [t]) := by
  have hlen : v.shareTimes.toList.length = 10 := v.shareTimes.toList_length
  have hlt : times.length % 10 < v.shareTimes.toList.length := by
    rw [hlen]
    exact Nat.mod_lt _ (by decide)
  have hslot := h.slot_eq
  have hring : (v.add t).shareTimes.toList = v.shareTimes.toList.set (times.length % 10) t := by
    show (v.shareTimes.set v.slot t).toList = _
    rw [List.Vector.toList_set, hslot]
  have hget : v.shareTimes.get v.slot = v.shareTimes.toList[times.length % 10] := by
    rw [List.Vector.get_eq_get_toList, List.get_eq_getElem]
    congr 1
  constructor
  · show (v.slot : Nat) + 1 = _
    simp [hslot]
  · rw [hring, List.length_append, List.length_singleton, ← List.append_assoc]
    apply Ring.rotate_set_rtake _ _ _ _ hlen _ h.ring_eq
    simp
  · -- the sum stays that of the ring: the time overwritten is taken off again
    have hsum := Ring.sum_set_add v.shareTimes.toList times.length t hlen hlt
    have hsub := sub64_modEq ((v.sum + t) % uint64Size) (v.shareTimes.get v.slot)
    have hmod : (v.add t).sum + v.shareTimes.get v.slot ≡
        (v.add t).shareTimes.toList.sum + v.shareTimes.get v.slot [MOD uint64Size] := by
      calc (v.add t).sum + v.shareTimes.get v.slot
          ≡ (v.sum + t) % uint64Size [MOD uint64Size] := hsub
        _ ≡ v.sum + t [MOD uint64Size] := Nat.mod_modEq _ _
        _ ≡ v.shareTimes.toList.sum + t [MOD uint64Size] := by
          rw [h.sum_eq]
          exact (Nat.mod_modEq _ _).add_right t
        _ = (v.add t).shareTimes.toList.sum + v.shareTimes.get v.slot := by
          rw [hring, hget, hsum]
    have hlt' : (v.add t).sum < uint64Size := sub64_lt _ _
    rw [← Nat.mod_eq_of_lt hlt']
    exact hmod.add_right_cancel' _

theorem Records.retargeted {v : VarDiff} {times : List Nat} (h : v.Records times) :
    v.retargeted.Records times :=
  ⟨h.pos_eq, h.ring_eq, h.sum_eq⟩

theorem Records.step {v : VarDiff} {times : List Nat} (h : v.Records times) (call : Call) :
    (v.step call).Records (times ++ call.time?.toList) := by
  cases call with
  | add t => exact h.add t
  | adjust currentDiff curtime lastAdjusted =>
    show (leftBy (v.adjust currentDiff curtime lastAdjusted)).Records (times ++ [])
    rw [List.append_nil]
    exact leftBy_adjust (P := fun v => v.Records times) h h.retargeted currentDiff curtime
      lastAdjusted

/-- The ring, its sum and `pos` stand for the times added, after any calls. -/
theorem records_after (rate : Double) (retargetInterval : Nat) (calls : List Call) :
    (after rate retargetInterval calls).Records (addedTimes calls) := by
  induction calls using List.reverseRecOn with
  | nil => exact Records.new rate retargetInterval
  | append_singleton calls call ih =>
    have hstep := ih.step call
    rw [after, run_append]
    rw [addedTimes, List.filterMap_append]
    have hone : [call].filterMap Call.time? = call.time?.toList := by cases call <;> rfl
    rw [hone]
    exact hstep

theorem sum_rtake_replicate (times : List Nat) :
    ((List.replicate 10 0 ++ times).rtake 10).sum = (times.rtake 10).sum := by
  have hlen : (List.replicate 10 0 ++ times).length - 10 = times.length := by simp
  rw [List.rtake, hlen, List.drop_append, List.drop_replicate, List.sum_append,
    List.sum_replicate, List.length_replicate, List.rtake, nsmul_zero, zero_add]

theorem Records.sum_mod {v : VarDiff} {times : List Nat} (h : v.Records times) :
    v.sum = (times.rtake 10).sum % uint64Size := by
  have hperm := (v.shareTimes.toList.rotate_perm times.length).sum_eq
  rw [h.ring_eq, sum_rtake_replicate] at hperm
  rw [h.sum_eq, hperm]

theorem Records.sum_eq_rtake {v : VarDiff} {times : List Nat} (h : v.Records times)
    (hsum : (times.rtake 10).sum < uint64Size) : v.sum = (times.rtake 10).sum := by
  rw [h.sum_mod, Nat.mod_eq_of_lt hsum]

/-! ## The window after every share -/

/-- The values still in the window, each in its slot, with 0 in the slots not written yet, and
their sum. -/
structure Window (v : VarDiff) (times : List Nat) : Prop where
  pos : 1 ≤ v.pos ∧ v.pos ≤ 10
  last : ∀ j, j < times.length → times.length ≤ j + 10 →
    v.shareTimes.toList[j % 10]? = times[j]?
  zero : ∀ i, times.length ≤ i → i < 10 → v.shareTimes.toList[i]? = some 0
  sum : v.sum ≡ (times.rtake 10).sum [MOD uint64Size]
  sum_exact : (times.rtake 10).sum < uint64Size → v.sum = (times.rtake 10).sum

/-- The ten slots hold the ten values before the next write, those before the first one 0. -/
theorem Records.slot_value {v : VarDiff} {times : List Nat} (h : v.Records times) {m : Nat}
    (hle : times.length ≤ m) (hlt : m < times.length + 10) :
    v.shareTimes.toList[m % 10]? = (List.replicate 10 0 ++ times)[m]? := by
  apply Ring.getElem?_of_rotate _ _ v.shareTimes.toList_length _ h.ring_eq hle hlt
  rw [List.length_append, List.length_replicate]

theorem Records.window {v : VarDiff} {times : List Nat} (h : v.Records times) (hne : times ≠ []) :
    v.Window times where
  pos := by
    have hpos := h.pos_eq
    rw [if_neg (fun h0 => hne (List.eq_nil_of_length_eq_zero h0))] at hpos
    omega
  last := by
    intro j hj hrecent
    have hslot := h.slot_value (m := j + 10) (by omega) (by omega)
    rw [Nat.add_mod_right, List.getElem?_append_right (by rw [List.length_replicate]; omega),
      List.length_replicate, Nat.add_sub_cancel] at hslot
    exact hslot
  zero := by
    intro i hunused hi
    have hslot := h.slot_value hunused (by omega)
    rw [Nat.mod_eq_of_lt hi, List.getElem?_append_left (by rw [List.length_replicate]; exact hi),
      List.getElem?_replicate, if_pos hi] at hslot
    exact hslot
  sum := by
    rw [h.sum_mod]
    exact Nat.mod_modEq _ _
  sum_exact := h.sum_eq_rtake

theorem addedTimes_map_add (times : List Nat) : addedTimes (times.map Call.add) = times := by
  rw [addedTimes, List.filterMap_map]
  exact List.filterMap_some

/-- After every call of `Add` on a fresh object. -/
theorem window_after_add (rate : Double) (retargetInterval : Nat) (times : List Nat) (t : Nat) :
    (after rate retargetInterval ((times ++ [t]).map Call.add)).Window (times ++ [t]) := by
  have hrecords := records_after rate retargetInterval ((times ++ [t]).map Call.add)
  rw [addedTimes_map_add] at hrecords
  exact hrecords.window (List.append_ne_nil_of_right_ne_nil _ (List.cons_ne_nil _ _))

/-! ## The mean of the last times -/

/-- The mean of times in milliseconds, in seconds. -/
def meanSeconds (times : List Nat) : Double := .num ((times.sum : ℚ) / times.length / 1000)

/-- Whenever `Adjust` goes past its guards with a share recorded and a sum other than 0, its
current share time is the mean of the last ten times, or of all of them while there are
fewer. -/
def MeasuresShareTime (v : VarDiff) (times : List Nat) : Prop :=
  ∀ curtime lastAdjusted, ¬ v.tooEarly (sub64 curtime lastAdjusted / 1000) → times ≠ [] →
    v.sum ≠ 0 → v.currentShareTime = meanSeconds (times.rtake 10)

/-- A sum other than 0 is never divided by 0. -/
theorem Records.pos_pos {v : VarDiff} {times : List Nat} (h : v.Records times)
    (hsum : v.sum ≠ 0) : 0 < v.pos := by
  have hpos := h.pos_eq
  by_cases h0 : times.length = 0
  · have hring := h.ring_eq
    rw [List.eq_nil_of_length_eq_zero h0, List.length_nil, List.rotate_zero] at hring
    have hsum0 := h.sum_eq
    rw [hring, sum_rtake_replicate, List.rtake_nil, List.sum_nil, Nat.zero_mod] at hsum0
    exact absurd hsum0 hsum
  · rw [if_neg h0] at hpos
    omega

theorem currentShareTime_of_sum_ne {v : VarDiff} (hsum : v.sum ≠ 0) (hpos : 0 < v.pos) :
    v.currentShareTime = .num ((v.sum : ℚ) / v.pos / 1000) := by
  have hpos' : (v.pos : ℚ) ≠ 0 := Nat.cast_ne_zero.mpr hpos.ne'
  rw [currentShareTime, if_pos hsum, Double.num_div_num, if_neg hpos']
  show Double.num _ / Double.num ((1000 : Nat) : ℚ) = _
  rw [Double.num_div_num, if_neg (by norm_num)]
  norm_num

/-- A retarget after the whole interval goes past the guards. -/
theorem not_tooEarly_of_interval {v : VarDiff} (h : v.retargetInterval < 2 ^ 32) :
    ¬ v.tooEarly (sub64 (v.retargetInterval * 1000) 0 / 1000) := by
  have hsub : sub64 (v.retargetInterval * 1000) 0 = v.retargetInterval * 1000 := by
    rw [sub64, Nat.zero_mod, Nat.sub_zero, Nat.add_mod_right]
    apply Nat.mod_eq_of_lt
    calc v.retargetInterval * 1000 < 2 ^ 32 * 1000 := by omega
      _ < uint64Size := by decide
  rw [hsub, Nat.mul_div_cancel _ (by decide)]
  intro hearly
  exact absurd hearly.1 (Nat.lt_irrefl _)

/-- Dividing by `pos` gives the mean exactly if `pos` is the number of times in the ring. -/
theorem Records.currentShareTime_eq_iff {v : VarDiff} {times : List Nat} (h : v.Records times)
    (hsum : (times.rtake 10).sum < uint64Size) (hne : v.sum ≠ 0) :
    v.currentShareTime = meanSeconds (times.rtake 10) ↔ v.pos = (times.rtake 10).length := by
  have hpos := h.pos_pos hne
  have hposQ : (v.pos : ℚ) ≠ 0 := Nat.cast_ne_zero.mpr hpos.ne'
  have hsumQ : (v.sum : ℚ) ≠ 0 := Nat.cast_ne_zero.mpr hne
  have heq := h.sum_eq_rtake hsum
  have hlen : ((times.rtake 10).length : ℚ) ≠ 0 := by
    apply Nat.cast_ne_zero.mpr
    intro h0
    rw [List.eq_nil_of_length_eq_zero h0] at heq
    exact hne heq
  rw [currentShareTime_of_sum_ne hne hpos, meanSeconds, ← heq, Double.num.injEq,
    div_left_inj' (by norm_num : (1000 : ℚ) ≠ 0), div_eq_div_iff hposQ hlen,
    mul_right_inj' hsumQ, Nat.cast_inj, eq_comm]

/-- The current share time is the mean of the last ten times as long as at most ten have
been added, and afterwards just when their number is a multiple of ten. -/
theorem measuresShareTime_iff (rate : Double) (retargetInterval : Nat) (calls : List Call)
    (hinterval : retargetInterval < 2 ^ 32)
    (hsum : ((addedTimes calls).rtake 10).sum < uint64Size) :
    (after rate retargetInterval calls).MeasuresShareTime (addedTimes calls) ↔
      ((addedTimes calls).rtake 10).sum = 0 ∨ (addedTimes calls).length ≤ 10 ∨
        10 ∣ (addedTimes calls).length := by
  have hrecords := records_after rate retargetInterval calls
  have hguards : ¬ (after rate retargetInterval calls).tooEarly
      (sub64 (retargetInterval * 1000) 0 / 1000) := by
    have h := after_retargetInterval rate retargetInterval calls
    have hlate := not_tooEarly_of_interval (v := after rate retargetInterval calls) (by omega)
    rwa [h] at hlate
  generalize after rate retargetInterval calls = v at hrecords hguards
  generalize addedTimes calls = times at hrecords hsum
  have hpos := hrecords.pos_eq
  have heq := hrecords.sum_eq_rtake hsum
  have hlen : (times.rtake 10).length = min times.length 10 := by
    rw [List.rtake, List.length_drop]
    omega
  constructor
  · intro hmean
    by_cases h0 : (times.rtake 10).sum = 0
    · exact .inl h0
    · have hne : times ≠ [] := fun hnil => h0 (by rw [hnil, List.rtake_nil, List.sum_nil])
      have hcur := hmean (retargetInterval * 1000) 0 hguards hne (heq ▸ h0)
      rw [hrecords.currentShareTime_eq_iff hsum (heq ▸ h0), hlen, hpos] at hcur
      split at hcur <;> omega
  · intro hcond curtime lastAdjusted _ hne hsum0
    have hlen0 : times.length ≠ 0 := fun h => hne (List.eq_nil_of_length_eq_zero h)
    rw [hrecords.currentShareTime_eq_iff hsum hsum0, hlen, hpos, if_neg hlen0]
    omega

/-- Twenty shares: the ring has gone round and `pos` is at its end again. -/
theorem measuresShareTime_twenty :
    (after 10 60 (List.replicate 20 (.add 1000))).MeasuresShareTime
      (addedTimes (List.replicate 20 (.add 1000))) :=
  (measuresShareTime_iff 10 60 _ (by decide) (by decide +kernel)).mpr (.inr (.inr (by decide)))

/-- The eleventh share of one second each: the ring holds ten seconds and `pos` is 1, so
that the mean comes out ten times too long. -/
theorem not_measuresShareTime_eleven :
    ¬ (after 10 60 (List.replicate 11 (.add 1000))).MeasuresShareTime
      (addedTimes (List.replicate 11 (.add 1000))) := by
  intro h
  exact absurd (h 60000 0 (by decide +kernel) (by decide) (by decide +kernel)) (by decide +kernel)

end VarDiff
end SickPool.Difficulty
