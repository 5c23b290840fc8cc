import SickPool.Difficulty.Retarget
import SickPool.Stratum.StratumClient

/-!
# The difficulties of one client over its calls

The share times, the retargets and the difficulties they lead to, over any sequence of
`SetLastShare`, `HandleAdjust` and `ActivatePendingDiff`. The constructor sets neither
`last_adjusted` nor `last_share_time`, so that the first interval and the first retarget
are counted from whatever the memory held.
-/
namespace SickPool.Stratum

open SickPool.Library SickPool.Library.Run SickPool.Persistence SickPool.Difficulty

/-- A call on a client that bears on its difficulties, with the clock readings in it. -/
inductive ClientCall where
  | setLastShare (shareEnd time curtime : Nat)
  | handleAdjust (time curtime : Nat)
  | activatePendingDiff

namespace StratumClient

def call (cli : StratumClient) : ClientCall → StratumClient
  | .setLastShare shareEnd time curtime => (cli.setLastShare shareEnd time curtime).1
  | .handleAdjust time curtime => cli.handleAdjust time curtime
  | .activatePendingDiff => cli.activatePendingDiff

/-- The pending and the current difficulty. -/
def difficulties (cli : StratumClient) : Option Double × Double := (cli.pendingDiff, cli.currentDiff)

/-- What `SetLastShare` adds to the share times. -/
def shareInterval (cli : StratumClient) (time : Nat) : Nat := sub64 time cli.lastShareTime

/-- What `Adjust` takes for the time since the last retarget. -/
def retargetElapsed (cli : StratumClient) (time : Nat) : Nat := sub64 time cli.lastAdjusted

/-! ## The ways through a call -/

theorem handleAdjust_early {cli : StratumClient} {time : Nat}
    (h : cli.varDiff.tooEarly (cli.retargetElapsed time / 1000)) (curtime : Nat) :
    cli.handleAdjust time curtime = cli := by
  rw [handleAdjust, VarDiff.adjust_early h, setAdjusted, if_neg (fun hne => hne rfl)]

theorem handleAdjust_due {cli : StratumClient} {time : Nat}
    (h : ¬ cli.varDiff.tooEarly (cli.retargetElapsed time / 1000)) (curtime : Nat) :
    cli.handleAdjust time curtime =
      cli.setAdjusted (cli.varDiff.retargeted,
        if cli.varDiff.Varies cli.currentDiff then cli.varDiff.newDiff cli.currentDiff else 0)
        curtime := by
  rw [handleAdjust, VarDiff.adjust_due h]

theorem call_setLastShare (cli : StratumClient) (shareEnd time curtime : Nat) :
    cli.call (.setLastShare shareEnd time curtime) =
      (cli.insertShare shareEnd time (cli.varDiff.add (cli.shareInterval time))).handleAdjust time
        curtime := rfl

theorem call_handleAdjust (cli : StratumClient) (time curtime : Nat) :
    cli.call (.handleAdjust time curtime) = cli.handleAdjust time curtime := rfl

/-! ## The difficulties stay positive -/

/-- What the calls keep of a client whose target rate is `r`. -/
structure Positive (r : ℚ) (cli : StratumClient) : Prop where
  averages : cli.varDiff.Averages
  rate : cli.varDiff.targetShareRate = .num r
  current : 0 < cli.currentDiff
  pending : ∀ d ∈ cli.pendingDiff, 0 < d

theorem Positive.new {r : ℚ} {diff : Double} (hdiff : 0 < diff) (old : Uninitialised)
    (extraNonce time retargetInterval : Nat) :
    (StratumClient.new old extraNonce time diff (.num r) retargetInterval).Positive r :=
  ⟨VarDiff.Averages.new _ _, rfl, hdiff, by simp [StratumClient.new]⟩

theorem Positive.insertShare {r : ℚ} {cli : StratumClient} (h : cli.Positive r)
    (shareEnd time t : Nat) :
    (cli.insertShare shareEnd time (cli.varDiff.add t)).Positive r :=
  ⟨h.averages.add t, h.rate, h.current, h.pending⟩

theorem Positive.handleAdjust {r : ℚ} (hr : 0 < r) {cli : StratumClient} (h : cli.Positive r)
    (time curtime : Nat) : (cli.handleAdjust time curtime).Positive r := by
  by_cases hearly : cli.varDiff.tooEarly (cli.retargetElapsed time / 1000)
  · rw [handleAdjust_early hearly]
    exact h
  · have hresult := h.averages.adjust_result hr h.rate h.current time cli.lastAdjusted
    rw [VarDiff.adjust_due hearly] at hresult
    rw [handleAdjust_due hearly]
    generalize (if cli.varDiff.Varies cli.currentDiff then cli.varDiff.newDiff cli.currentDiff
      else 0) = result at hresult ⊢
    by_cases h0 : result = 0
    · rw [setAdjusted, if_neg (not_not.mpr h0)]
      exact ⟨h.averages.retargeted, h.rate, h.current, h.pending⟩
    · rw [setAdjusted, if_pos h0]
      refine ⟨h.averages.retargeted, h.rate, h.current, ?_⟩
      intro d hd
      obtain rfl := Option.some.inj hd
      exact (hresult.resolve_left h0).pos

theorem Positive.activatePendingDiff {r : ℚ} {cli : StratumClient} (h : cli.Positive r) :
    cli.activatePendingDiff.Positive r := by
  refine ⟨h.averages, h.rate, ?_, by simp [StratumClient.activatePendingDiff]⟩
  show 0 < cli.pendingDiff.getD cli.currentDiff
  cases hp : cli.pendingDiff with
  | none => exact h.current
  | some d => exact h.pending d (by rw [hp]; rfl)

theorem Positive.call {r : ℚ} (hr : 0 < r) {cli : StratumClient} (h : cli.Positive r)
    (c : ClientCall) : (cli.call c).Positive r := by
  cases c with
  | setLastShare shareEnd time curtime =>
    rw [call_setLastShare]
    exact (h.insertShare shareEnd time _).handleAdjust hr time curtime
  | handleAdjust time curtime => exact h.handleAdjust hr time curtime
  | activatePendingDiff => exact h.activatePendingDiff

/-- Every difficulty of the client, current or pending, is positive. -/
def PositiveDifficulties (cli : StratumClient) : Prop :=
  0 < cli.currentDiff ∧ ∀ d ∈ cli.pendingDiff, 0 < d

/-- Over any calls on a fresh `VarDiff` a sum is never divided by 0, the result is 0 or a
positive difficulty that differs by more than a tenth, and the 0 means no change unless 2^64
retargets have wrapped their count. Over any calls on a client with a positive start all its
difficulties are positive. -/
theorem retarget_wellDefined {r : ℚ} (hr : 0 < r) (retargetInterval : Nat) :
    (∀ (calls : List Call) (currentDiff : Double) (curtime lastAdjusted : Nat), 0 < currentDiff →
      let v := VarDiff.after (.num r) retargetInterval calls
      let result := (v.adjust currentDiff curtime lastAdjusted).2
      (v.sum ≠ 0 → v.pos ≠ 0) ∧ (result = 0 ∨ VarDiff.Changed currentDiff result) ∧
        (calls.length + 1 < uint64Size → (result = 0 ↔
          v.tooEarly (sub64 curtime lastAdjusted / 1000) ∨ ¬ v.Varies currentDiff))) ∧
    ∀ (old : Uninitialised) (extraNonce time : Nat) (diff : Double) (calls : List ClientCall),
      0 < diff → Always call PositiveDifficulties
        (new old extraNonce time diff (.num r) retargetInterval) calls := by
  constructor
  · intro calls currentDiff curtime lastAdjusted hcur v result
    have havg : v.Averages := VarDiff.averages_after (.num r) retargetInterval calls
    have hrate : v.targetShareRate = .num r := VarDiff.after_targetShareRate _ _ calls
    refine ⟨fun hsum => (havg.pos_pos hsum).ne', havg.adjust_result hr hrate hcur _ _, ?_⟩
    intro hlen
    apply havg.adjust_eq_zero_iff hr hrate hcur
    have hcount := VarDiff.retargetCount_after (.num r) retargetInterval calls
    show (v.retargetCount + 1) % uint64Size ≠ 0
    have hlt : v.retargetCount + 1 < uint64Size := lt_of_le_of_lt (Nat.succ_le_succ hcount) hlen
    rw [Nat.mod_eq_of_lt hlt]
    exact Nat.succ_ne_zero _
  · intro old extraNonce time diff calls hdiff
    exact always_of_invariant (fun cli h => ⟨h.current, h.pending⟩) (fun cli c h => h.call hr c)
      (Positive.new hdiff old extraNonce time retargetInterval) calls

/-- A client without shares whose difficulty is halved by its second retarget. -/
theorem retarget_wellDefined_idle :
    ((VarDiff.after (.num 10) 60 [.adjust 8 60000 0]).adjust 8 120000 0).2 = 4 ∧
      VarDiff.Changed 8 ((VarDiff.after (.num 10) 60 [.adjust 8 60000 0]).adjust 8 120000 0).2 ∧
      Always call PositiveDifficulties (new ⟨0, 0, 0⟩ 0 0 8 (.num 10) 60)
        [.handleAdjust 60000 60000, .handleAdjust 120000 120000, .activatePendingDiff] := by
  have hr : (0 : ℚ) < 10 := by norm_num
  have hresult :
      ((VarDiff.after (.num 10) 60 [.adjust 8 60000 0]).adjust 8 120000 0).2 = 4 := by
    decide +kernel
  have hvar := ((retarget_wellDefined hr 60).1 [.adjust 8 60000 0] 8 120000 0 (by decide)).2.1
  refine ⟨hresult, hvar.resolve_left ?_, (retarget_wellDefined hr 60).2 _ _ _ _ _ (by decide)⟩
  rw [hresult]
  decide

/-! ## Two clients made with the same arguments -/

/-- The two clients take every call the same way: they differ in what is not read for a
difficulty, and in times that are the same modulo 2^64. -/
structure Agree (cli cli' : StratumClient) : Prop where
  varDiff : cli.varDiff = cli'.varDiff
  current : cli.currentDiff = cli'.currentDiff
  pending : cli.pendingDiff = cli'.pendingDiff
  adjusted : cli.lastAdjusted ≡ cli'.lastAdjusted [MOD uint64Size]
  shared : cli.lastShareTime ≡ cli'.lastShareTime [MOD uint64Size]

theorem Agree.new {old old' : Uninitialised} (extraNonce extraNonce' time : Nat)
    (diff rate : Double) (retargetInterval : Nat)
    (hadjusted : old.lastAdjusted ≡ old'.lastAdjusted [MOD uint64Size])
    (hshared : old.lastShareTime ≡ old'.lastShareTime [MOD uint64Size]) :
    (StratumClient.new old extraNonce time diff rate retargetInterval).Agree
      (StratumClient.new old' extraNonce' time diff rate retargetInterval) :=
  ⟨rfl, rfl, rfl, hadjusted, hshared⟩

theorem Agree.insertShare {cli cli' : StratumClient} (h : cli.Agree cli') (shareEnd time t : Nat) :
    (cli.insertShare shareEnd time (cli.varDiff.add t)).Agree
      (cli'.insertShare shareEnd time (cli'.varDiff.add t)) :=
  ⟨by rw [h.varDiff]; rfl, h.current, h.pending, h.adjusted, Nat.ModEq.refl time⟩

theorem Agree.setAdjusted {cli cli' : StratumClient} (h : cli.Agree cli')
    (adjusted : VarDiff × Double) (curtime : Nat) :
    (cli.setAdjusted adjusted curtime).Agree (cli'.setAdjusted adjusted curtime) := by
  unfold StratumClient.setAdjusted
  split
  · exact ⟨rfl, h.current, rfl, Nat.ModEq.refl curtime, h.shared⟩
  · exact ⟨rfl, h.current, h.pending, h.adjusted, h.shared⟩

theorem Agree.handleAdjust {cli cli' : StratumClient} (h : cli.Agree cli') (time curtime : Nat) :
    (cli.handleAdjust time curtime).Agree (cli'.handleAdjust time curtime) := by
  have hadjust : cli.varDiff.adjust cli.currentDiff time cli.lastAdjusted =
      cli'.varDiff.adjust cli'.currentDiff time cli'.lastAdjusted := by
    rw [h.varDiff, h.current, VarDiff.adjust_eq, VarDiff.adjust_eq, sub64_congr time h.adjusted]
  rw [StratumClient.handleAdjust, StratumClient.handleAdjust, hadjust]
  exact h.setAdjusted _ curtime

theorem Agree.call {cli cli' : StratumClient} (h : cli.Agree cli') (c : ClientCall) :
    (cli.call c).Agree (cli'.call c) := by
  cases c with
  | setLastShare shareEnd time curtime =>
    have hinterval : cli.shareInterval time = cli'.shareInterval time := sub64_congr time h.shared
    rw [call_setLastShare, call_setLastShare, hinterval]
    exact (h.insertShare shareEnd time _).handleAdjust time curtime
  | handleAdjust time curtime => exact h.handleAdjust time curtime
  | activatePendingDiff =>
    refine ⟨h.varDiff, ?_, rfl, h.adjusted, h.shared⟩
    show cli.pendingDiff.getD cli.currentDiff = cli'.pendingDiff.getD cli'.currentDiff
    rw [h.pending, h.current]

/-- Clients that agree have the same difficulties after every call of any sequence. -/
theorem Agree.trace_eq {cli cli' : StratumClient} (h : cli.Agree cli') (calls : List ClientCall) :
    trace StratumClient.call difficulties cli calls =
      trace StratumClient.call difficulties cli' calls :=
  trace_eq_of_related (fun _ _ h => Prod.ext h.pending h.current) (fun _ _ c h => h.call c) h calls

/-- The first share's interval and the first retarget count from the time of connection. -/
def MeasuredFromConnect (cli : StratumClient) : Prop :=
  ∀ time, cli.shareInterval time = sub64 time cli.connectTime ∧
    cli.retargetElapsed time = sub64 time cli.connectTime

theorem measuredFromConnect_iff (cli : StratumClient) :
    cli.MeasuredFromConnect ↔ cli.lastShareTime ≡ cli.connectTime [MOD uint64Size] ∧
      cli.lastAdjusted ≡ cli.connectTime [MOD uint64Size] := by
  constructor
  · intro h
    exact ⟨modEq_of_sub64 (h 0).1, modEq_of_sub64 (h 0).2⟩
  · rintro ⟨hshared, hadjusted⟩ time
    exact ⟨sub64_congr time hshared, sub64_congr time hadjusted⟩

/-- Two clients made with the same arguments have the same difficulties over every history, and
measure their first share and their first retarget from the connection, exactly if the memory
they were made in held the connection time in both places. -/
theorem history_determined_iff (old old' : Uninitialised) (extraNonce extraNonce' time : Nat)
    (diff rate : Double) (retargetInterval : Nat) :
    ((∀ calls, trace call difficulties (new old extraNonce time diff rate retargetInterval) calls =
        trace call difficulties (new old' extraNonce' time diff rate retargetInterval) calls) ∧
      (new old extraNonce time diff rate retargetInterval).MeasuredFromConnect ∧
      (new old' extraNonce' time diff rate retargetInterval).MeasuredFromConnect) ↔
    (old.lastShareTime ≡ time [MOD uint64Size] ∧ old.lastAdjusted ≡ time [MOD uint64Size]) ∧
      old'.lastShareTime ≡ time [MOD uint64Size] ∧
      old'.lastAdjusted ≡ time [MOD uint64Size] := by
  rw [measuredFromConnect_iff, measuredFromConnect_iff]
  constructor
  · rintro ⟨-, h, h'⟩
    exact ⟨h, h'⟩
  · rintro ⟨⟨hshared, hadjusted⟩, hshared', hadjusted'⟩
    refine ⟨fun calls => ?_, ⟨hshared, hadjusted⟩, hshared', hadjusted'⟩
    exact (Agree.new extraNonce extraNonce' time diff rate retargetInterval
      (hadjusted.trans hadjusted'.symm) (hshared.trans hshared'.symm)).trace_eq calls

/-- Two idle clients that connected at the same moment: one is due for its second retarget, the
other, with a later `last_adjusted` left in its memory, is not. -/
theorem history_not_determined :
    trace call difficulties (new ⟨0, 1000000, 1000000⟩ 0 1000000 8 10 60)
        [.handleAdjust 1060000 1060000, .handleAdjust 1120000 1120000] ≠
      trace call difficulties (new ⟨0, 1070000, 1000000⟩ 0 1000000 8 10 60)
        [.handleAdjust 1060000 1060000, .handleAdjust 1120000 1120000] := by
  decide +kernel

/-! ## What the difficulties tell of the memory -/

/-- What a retarget that is due makes of a client whose difficulty it multiplies by `m`. -/
theorem handleAdjust_factor {cli : StratumClient} {d m : ℚ} (hd : 0 < d) (hm : 0 < m)
    (hcur : cli.currentDiff = .num d) (hnew : cli.varDiff.newDiff (.num d) = .num (d * m))
    {time : Nat} (hdue : ¬ cli.varDiff.tooEarly (cli.retargetElapsed time / 1000)) (curtime : Nat) :
    cli.handleAdjust time curtime =
      if 1 / 10 < |m - 1| then
        { cli with varDiff := cli.varDiff.retargeted }.setPendingDifficulty (.num (d * m)) curtime
      else { cli with varDiff := cli.varDiff.retargeted } := by
  have hne : Double.num (d * m) ≠ 0 := by
    rw [Double.zero_eq_num, ne_eq, Double.num.injEq]
    positivity
  have hvar := VarDiff.varies_iff hd hnew
  rw [← hcur] at hvar hnew
  rw [handleAdjust_due hdue]
  by_cases hvaries : 1 / 10 < |m - 1|
  · rw [if_pos (hvar.mpr hvaries), if_pos hvaries, hnew, setAdjusted, if_pos hne]
  · rw [if_neg (fun h => hvaries (hvar.mp h)), if_neg hvaries, setAdjusted,
      if_neg (not_not.mpr rfl)]

/-- A retarget after the whole interval is due. -/
theorem due_of_interval_le {v : VarDiff} {elapsed : Nat} (h : v.retargetInterval ≤ elapsed) :
    ¬ v.tooEarly elapsed :=
  fun hearly => absurd hearly.1 (Nat.not_lt.mpr h)

theorem pending_of_trace_eq {cli cli' : StratumClient} {calls : List ClientCall}
    (h : trace call difficulties cli calls = trace call difficulties cli' calls) :
    (run call cli calls).pendingDiff = (run call cli' calls).pendingDiff :=
  congrArg Prod.fst (obs_run_of_trace_eq h)

section Distinguish

variable {d r : ℚ} {retargetInterval lastAdjusted : Nat}

/-- A client at its first difficulty that has had no share and been retargeted `k` times. -/
structure Idle (d : ℚ) (retargetInterval lastAdjusted k : Nat) (cli : StratumClient) : Prop where
  interval : cli.varDiff.retargetInterval = retargetInterval
  current : cli.currentDiff = .num d
  pending : cli.pendingDiff = none
  adjusted : cli.lastAdjusted = lastAdjusted
  sum : cli.varDiff.sum = 0
  retargetSum : cli.varDiff.retargetSum = 0
  retargetCount : cli.varDiff.retargetCount = k
  pos : cli.varDiff.pos = 0

theorem Idle.new (old : Uninitialised) (extraNonce time : Nat) :
    (StratumClient.new old extraNonce time (.num d) (.num r) retargetInterval).Idle d
      retargetInterval old.lastAdjusted 0 :=
  ⟨rfl, rfl, rfl, rfl, rfl, rfl, rfl, rfl⟩

theorem Idle.due {k time : Nat} {cli : StratumClient} (h : cli.Idle d retargetInterval lastAdjusted k)
    (htime : retargetInterval ≤ sub64 time lastAdjusted / 1000) :
    ¬ cli.varDiff.tooEarly (cli.retargetElapsed time / 1000) := by
  rw [retargetElapsed, h.adjusted]
  apply due_of_interval_le
  rw [h.interval]
  exact htime

/-- The first retarget divides by one: it is only counted. -/
theorem Idle.first (hd : 0 < d) {time : Nat} {cli : StratumClient}
    (h : cli.Idle d retargetInterval lastAdjusted 0)
    (htime : retargetInterval ≤ sub64 time lastAdjusted / 1000) :
    (cli.handleAdjust time time).Idle d retargetInterval lastAdjusted 1 := by
  have hlt : cli.varDiff.retargetCount + 1 < uint64Size := by rw [h.retargetCount]; decide
  have hnew := VarDiff.newDiff_idle h.sum h.retargetSum hlt d
  rw [h.retargetCount] at hnew
  rw [handleAdjust_factor hd (by norm_num) h.current hnew (h.due htime), if_neg (by norm_num)]
  refine ⟨h.interval, h.current, h.pending, h.adjusted, h.sum,
    VarDiff.retargeted_retargetSum_idle h.sum h.retargetSum, ?_, h.pos⟩
  rw [VarDiff.retargeted_retargetCount hlt, h.retargetCount]

/-- The second retarget halves the difficulty, once it is due. -/
theorem Idle.second (hd : 0 < d) {cli : StratumClient}
    (h : cli.Idle d retargetInterval lastAdjusted 1) (time : Nat) :
    (cli.handleAdjust time time).pendingDiff =
      if retargetInterval ≤ sub64 time lastAdjusted / 1000 then some (.num (d * (1 / 2)))
      else none := by
  by_cases htime : retargetInterval ≤ sub64 time lastAdjusted / 1000
  · have hnew := VarDiff.newDiff_idle h.sum h.retargetSum (by rw [h.retargetCount]; decide) d
    rw [h.retargetCount] at hnew
    rw [if_pos htime, handleAdjust_factor hd (by norm_num) h.current hnew (h.due htime),
      if_pos (by norm_num [abs_div])]
    show some (Double.num (d * (1 / ((1 + 1 : Nat) : ℚ)))) = _
    norm_num
  · have hearly : cli.varDiff.tooEarly (cli.retargetElapsed time / 1000) := by
      rw [retargetElapsed, h.adjusted, VarDiff.tooEarly, h.interval, h.retargetCount, h.pos]
      exact ⟨Nat.lt_of_not_le htime, by rw [if_neg (by decide)]; decide⟩
    rw [if_neg htime, handleAdjust_early hearly]
    exact h.pending

/-- Equal difficulties over all histories tell that `last_adjusted` was the same. -/
theorem lastAdjusted_of_trace_eq (hd : 0 < d) (hinterval : 1 ≤ retargetInterval)
    (hlt : retargetInterval < 2 ^ 32) {old old' : Uninitialised} {extraNonce extraNonce' time : Nat}
    (h : ∀ calls,
      trace call difficulties (new old extraNonce time (.num d) (.num r) retargetInterval) calls =
        trace call difficulties (new old' extraNonce' time (.num d) (.num r) retargetInterval)
          calls) :
    old.lastAdjusted ≡ old'.lastAdjusted [MOD uint64Size] := by
  by_contra hne
  have hdiv : ∀ x : Nat, retargetInterval ≤ x / 1000 ↔ retargetInterval * 1000 ≤ x :=
    fun x => Nat.le_div_iff_mul_le (by decide)
  have hsize : 2 * (retargetInterval * 1000) < uint64Size := by
    calc 2 * (retargetInterval * 1000) < 2 * (2 ^ 32 * 1000) := by omega
      _ < uint64Size := by decide
  obtain ⟨first, second, ha, hb, hdiffer⟩ := exists_sub64_times (by omega) hsize hne
  rw [← hdiv] at ha hb
  rw [← hdiv, ← hdiv] at hdiffer
  have hrun := pending_of_trace_eq (h [.handleAdjust first first, .handleAdjust second second])
  have hleft := ((Idle.new (r := r) old extraNonce time).first hd ha).second hd second
  have hright := ((Idle.new (r := r) old' extraNonce' time).first hd hb).second hd second
  rw [run_cons, run_cons, run_nil, run_cons, run_cons, run_nil, call_handleAdjust,
    call_handleAdjust, call_handleAdjust, call_handleAdjust, hleft, hright] at hrun
  apply hdiffer
  constructor
  · intro hleft'
    by_contra hright'
    rw [if_pos hleft', if_neg hright'] at hrun
    exact absurd hrun (Option.some_ne_none _)
  · intro hright'
    by_contra hleft'
    rw [if_neg hleft', if_pos hright'] at hrun
    exact absurd hrun.symm (Option.some_ne_none _)

/-- A client whose first share took `s` milliseconds, before any retarget. -/
structure FirstShare (d r : ℚ) (retargetInterval lastAdjusted s : Nat) (cli : StratumClient) :
    Prop where
  interval : cli.varDiff.retargetInterval = retargetInterval
  rate : cli.varDiff.targetShareRate = .num r
  current : cli.currentDiff = .num d
  pending : cli.pendingDiff = none
  adjusted : cli.lastAdjusted = lastAdjusted
  sum : cli.varDiff.sum = s
  pos : cli.varDiff.pos = 1
  retargetSum : cli.varDiff.retargetSum = 0
  retargetCount : cli.varDiff.retargetCount = 0

theorem FirstShare.new (old : Uninitialised) (extraNonce time shareEnd now : Nat)
    {cli : StratumClient}
    (hcli : cli = StratumClient.new old extraNonce time (.num d) (.num r) retargetInterval)
    {s : Nat} (hs : s < uint64Size) :
    (cli.insertShare shareEnd now (cli.varDiff.add s)).FirstShare d r retargetInterval
      old.lastAdjusted s := by
  subst hcli
  refine ⟨rfl, rfl, rfl, rfl, rfl, ?_, rfl, rfl, rfl⟩
  show sub64 ((0 + s) % uint64Size) 0 = s
  rw [Nat.zero_add, Nat.mod_eq_of_lt hs]
  exact sub64_eq_of_modEq hs (Nat.ModEq.refl _)

theorem FirstShare.tooEarly_iff {s elapsed : Nat} {cli : StratumClient}
    (h : cli.FirstShare d r retargetInterval lastAdjusted s) :
    cli.varDiff.tooEarly elapsed ↔ elapsed < retargetInterval / 2 := by
  rw [VarDiff.tooEarly, h.interval, h.retargetCount, h.pos, if_pos rfl]
  omega

/-- What a first retarget makes pending after one share of `s` milliseconds. -/
def firstPending (d r : ℚ) (s : Nat) : Option Double :=
  if 1 / 10 < |VarDiff.firstFactor r s - 1| then some (.num (d * VarDiff.firstFactor r s)) else none

theorem firstPending_inj (hd : 0 < d) (hr : 0 < r) {s s' : Nat}
    (hvaries : 1 / 10 < |VarDiff.firstFactor r s - 1|) (h : firstPending d r s = firstPending d r s') :
    s = s' := by
  unfold firstPending at h
  rw [if_pos hvaries] at h
  split at h
  · rw [Option.some.injEq, Double.num.injEq, mul_right_inj' hd.ne'] at h
    exact VarDiff.firstFactor_inj hr hvaries h
  · exact absurd h (Option.some_ne_none _)

theorem FirstShare.handleAdjust_pending (hd : 0 < d) (hr : 0 < r) {s time : Nat}
    {cli : StratumClient} (h : cli.FirstShare d r retargetInterval lastAdjusted s)
    (hdue : ¬ cli.varDiff.tooEarly (cli.retargetElapsed time / 1000)) :
    (cli.handleAdjust time time).pendingDiff = firstPending d r s := by
  have hnew := VarDiff.newDiff_first hr h.rate h.pos h.retargetSum h.retargetCount d
  rw [h.sum] at hnew
  rw [handleAdjust_factor hd (VarDiff.firstFactor_pos hr s) h.current hnew hdue, firstPending]
  by_cases hvaries : 1 / 10 < |VarDiff.firstFactor r s - 1|
  · rw [if_pos hvaries, if_pos hvaries]
    rfl
  · rw [if_neg hvaries, if_neg hvaries]
    exact h.pending

/-- A first share at `now`, and a retarget later when it was too early for one. -/
def firstShareCalls (retargetInterval elapsed now later : Nat) : List ClientCall :=
  if elapsed < retargetInterval / 2 then [.setLastShare 0 now now, .handleAdjust later later]
  else [.setLastShare 0 now now]

theorem firstShareCalls_pending (hd : 0 < d) (hr : 0 < r) (old : Uninitialised)
    (extraNonce time now : Nat) {later : Nat}
    (hlater : retargetInterval ≤ sub64 later old.lastAdjusted / 1000) :
    (run call (new old extraNonce time (.num d) (.num r) retargetInterval)
      (firstShareCalls retargetInterval (sub64 now old.lastAdjusted / 1000) now later)).pendingDiff =
      firstPending d r (sub64 now old.lastShareTime) := by
  generalize hcli : new old extraNonce time (.num d) (.num r) retargetInterval = cli
  have hshared : cli.lastShareTime = old.lastShareTime := by rw [← hcli]; rfl
  have hinterval : cli.shareInterval now = sub64 now old.lastShareTime := by
    rw [shareInterval, hshared]
  have hshare := FirstShare.new old extraNonce time 0 now hcli.symm (sub64_lt now old.lastShareTime)
  have hcall := call_setLastShare cli 0 now now
  rw [hinterval] at hcall
  generalize cli.insertShare 0 now (cli.varDiff.add (sub64 now old.lastShareTime)) = shared
    at hshare hcall
  have helapsed : shared.retargetElapsed now = sub64 now old.lastAdjusted := by
    rw [retargetElapsed, hshare.adjusted]
  unfold firstShareCalls
  by_cases hearly : sub64 now old.lastAdjusted / 1000 < retargetInterval / 2
  · have hlate : ¬ shared.varDiff.tooEarly (shared.retargetElapsed later / 1000) := by
      rw [hshare.tooEarly_iff, retargetElapsed, hshare.adjusted]
      omega
    rw [if_pos hearly, run_cons, run_cons, run_nil, hcall, call_handleAdjust, handleAdjust_early
      (hshare.tooEarly_iff.mpr (by rw [helapsed]; exact hearly))]
    exact hshare.handleAdjust_pending hd hr hlate
  · rw [if_neg hearly, run_cons, run_nil, hcall]
    apply hshare.handleAdjust_pending hd hr
    rw [hshare.tooEarly_iff, helapsed]
    exact hearly

/-- Equal difficulties over all histories tell that `last_share_time` was the same. -/
theorem lastShareTime_of_trace_eq (hd : 0 < d) (hr : 0 < r) (hlt : retargetInterval < 2 ^ 32)
    {old old' : Uninitialised} {extraNonce extraNonce' time : Nat}
    (hadjusted : old.lastAdjusted ≡ old'.lastAdjusted [MOD uint64Size])
    (h : ∀ calls,
      trace call difficulties (new old extraNonce time (.num d) (.num r) retargetInterval) calls =
        trace call difficulties (new old' extraNonce' time (.num d) (.num r) retargetInterval)
          calls) :
    old.lastShareTime ≡ old'.lastShareTime [MOD uint64Size] := by
  obtain ⟨s, hs, hvaries⟩ := VarDiff.exists_firstFactor_varies r
  -- a first share of `s` milliseconds by the one memory
  have hs' : sub64 (old.lastShareTime + s) old.lastShareTime = s :=
    sub64_add_self _ (lt_of_le_of_lt hs (by decide))
  have hlater : sub64 (old.lastAdjusted + retargetInterval * 1000) old.lastAdjusted / 1000 =
      retargetInterval := by
    have hsize : retargetInterval * 1000 < uint64Size := by
      calc retargetInterval * 1000 < 2 ^ 32 * 1000 := by omega
        _ < uint64Size := by decide
    rw [sub64_add_self _ hsize, Nat.mul_div_cancel _ (by decide)]
  have hrun := pending_of_trace_eq (h (firstShareCalls retargetInterval
    (sub64 (old.lastShareTime + s) old.lastAdjusted / 1000) (old.lastShareTime + s)
    (old.lastAdjusted + retargetInterval * 1000)))
  have hleft := firstShareCalls_pending hd hr old extraNonce time (old.lastShareTime + s) hlater.ge
  have hright := firstShareCalls_pending hd hr old' extraNonce' time (old.lastShareTime + s)
    (hlater.ge.trans (by rw [sub64_congr _ hadjusted]))
  rw [← sub64_congr _ hadjusted] at hright
  rw [hleft, hright, hs'] at hrun
  have heq := firstPending_inj hd hr hvaries hrun
  exact modEq_of_sub64 (hs'.trans heq)

/-- With a positive difficulty and rate, the difficulties are the same over all histories exactly
if the two memories held the same times: nothing a client does later hides them for good. -/
theorem trace_eq_iff (hd : 0 < d) (hr : 0 < r) (hinterval : 1 ≤ retargetInterval)
    (hlt : retargetInterval < 2 ^ 32) (old old' : Uninitialised) (extraNonce extraNonce' time : Nat) :
    (∀ calls,
      trace call difficulties (new old extraNonce time (.num d) (.num r) retargetInterval) calls =
        trace call difficulties (new old' extraNonce' time (.num d) (.num r) retargetInterval)
          calls) ↔
      old.lastAdjusted ≡ old'.lastAdjusted [MOD uint64Size] ∧
        old.lastShareTime ≡ old'.lastShareTime [MOD uint64Size] := by
  constructor
  · intro h
    have hadjusted := lastAdjusted_of_trace_eq hd hinterval hlt h
    exact ⟨hadjusted, lastShareTime_of_trace_eq hd hr hlt hadjusted h⟩
  · rintro ⟨hadjusted, hshared⟩ calls
    exact (Agree.new extraNonce extraNonce' time _ _ _ hadjusted hshared).trace_eq calls

end Distinguish

end StratumClient
end SickPool.Stratum
