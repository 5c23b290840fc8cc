import SickPool.Payouts.PayoutLedger

/-!
# The payout schedule

How long the loop of `payouts/main.cpp` waits for a message, and the times of its payouts. The
wait is `next_payment - curtime`; `next_payment` goes on with every payout, `curtime` is read
once, in front of the loop.
-/
namespace SickPool.Payouts

open SickPool.Library.Run PayoutState

/-- The program with the time it read at its start, the waits it passed to `GetOneReply` and what
it set `payout_info.time` to. -/
structure PayoutLoop where
  payout : PayoutState
  curtime : Nat
  waits : List Int
  times : List Nat

/-- A wait ends with a message, with an error, or by a timeout, upon which the balances are
loaded. The other steps are those of the cycle and of the pool. -/
inductive LoopEvent where
  | message
  | redisError
  | payout (e : PayoutEvent)

namespace PayoutLoop

/-- `main` up to the loop. -/
def start (cfg : PaymentConfig) (books : Books) (curtime : Nat) : PayoutLoop where
  payout := PayoutState.start books
    (curtime + cfg.paymentIntervalSeconds - curtime % cfg.paymentIntervalSeconds)
  curtime := curtime
  waits := []
  times := []

def getOneReply (s : PayoutLoop) : PayoutLoop :=
  { s with waits := s.waits ++ [(s.payout.nextPayment : Int) - s.curtime] }

/-- One step. A process that has ended is not started again here. -/
def step (cfg : PaymentConfig) (s : PayoutLoop) : LoopEvent → PayoutLoop
  | .message => if s.payout.phase = .waiting then s.getOneReply else s
  | .redisError =>
    if s.payout.phase = .waiting then
      { s.getOneReply with payout := { s.payout with phase := .exited } }
    else s
  | .payout (.loadUnpaidRewards up total) =>
    if s.payout.phase = .waiting then
      { s.getOneReply with
        payout := s.payout.step cfg (.loadUnpaidRewards up total)
        times := s.times ++ [s.payout.nextPayment * 1000] }
    else s
  | .payout (.restart _) => s
  | .payout e => { s with payout := s.payout.step cfg e }

/-- The step is an iteration of the loop. -/
def iterates (s : PayoutLoop) : LoopEvent → Prop
  | .message | .redisError | .payout (.loadUnpaidRewards _ _) => s.payout.phase = .waiting
  | .payout _ => False

/-- No wait is longer than the interval, and the times of the payouts are consecutive multiples of
it, in milliseconds. -/
structure Punctual (cfg : PaymentConfig) (s : PayoutLoop) : Prop where
  waits : ∀ wait ∈ s.waits, wait ≤ cfg.paymentIntervalSeconds
  times : ∃ k, s.times =
    (List.range s.times.length).map (fun j => (k + j) * cfg.paymentIntervalSeconds * 1000)

/-- An iteration is not behind a payout. -/
def BeforePayouts (s : PayoutLoop) (e : LoopEvent) : Prop := s.iterates e → s.times = []

/-! ## Steps -/

/-- The step leaves the waits, the times of the payouts and the next one. -/
structure SameSchedule (s s' : PayoutLoop) : Prop where
  waits : s'.waits = s.waits
  times : s'.times = s.times
  curtime : s'.curtime = s.curtime
  next : s'.payout.nextPayment = s.payout.nextPayment
  exited : s.payout.phase = .exited → s'.payout.phase = .exited

end PayoutLoop

/-- The next payment is moved when the balances have been loaded, and by nothing else. -/
theorem PayoutState.nextPayment_step (cfg : PaymentConfig) (s : PayoutState) (e : PayoutEvent)
    (hload : ∀ up total, e ≠ .loadUnpaidRewards up total) (hrestart : ∀ n, e ≠ .restart n) :
    (s.step cfg e).nextPayment = s.nextPayment ∧
      (s.phase = .exited → (s.step cfg e).phase = .exited) := by
  cases e with
  | loadUnpaidRewards up total => exact absurd rfl (hload up total)
  | restart n => exact absurd rfl (hrestart n)
  | pool up st =>
    cases up with
    | true => exact ⟨rfl, fun h => h⟩
    | false => exact ⟨rfl, fun h => h⟩
  | updateNextPayout up =>
    refine ⟨?_, fun h => by simp only [step, h]⟩
    simp only [step]
    split
    · split
      · rfl
      · rfl
    · rfl
  | transfer reply =>
    refine ⟨?_, fun h => by simp only [step, h]⟩
    simp only [step]
    split
    · cases reply <;> rfl
    · rfl
  | addPayout up =>
    refine ⟨?_, fun h => by simp only [step, h]⟩
    simp only [step]
    split
    · split <;> rfl
    · rfl
  | getLastId up =>
    refine ⟨?_, fun h => by simp only [step, h]⟩
    simp only [step]
    split
    · split <;> rfl
    · rfl
  | addPayoutEntry up =>
    refine ⟨?_, fun h => by simp only [step, h]⟩
    simp only [step]
    split
    · split <;> rfl
    · rfl

namespace PayoutLoop

variable {cfg : PaymentConfig} {s : PayoutLoop} {e : LoopEvent}

theorem sameSchedule_cycle (e : PayoutEvent) (hload : ∀ up total, e ≠ .loadUnpaidRewards up total)
    (hrestart : ∀ n, e ≠ .restart n) :
    SameSchedule s { s with payout := s.payout.step cfg e } := by
  obtain ⟨hnext, hexited⟩ := s.payout.nextPayment_step cfg e hload hrestart
  exact ⟨rfl, rfl, rfl, hnext, hexited⟩

/-- A step that is no iteration. -/
theorem sameSchedule_step (h : ¬ s.iterates e) : SameSchedule s (s.step cfg e) := by
  have hrefl : SameSchedule s s := ⟨rfl, rfl, rfl, rfl, fun h => h⟩
  match e with
  | .message =>
    have hphase : s.payout.phase ≠ .waiting := h
    rw [step, if_neg hphase]
    exact hrefl
  | .redisError =>
    have hphase : s.payout.phase ≠ .waiting := h
    rw [step, if_neg hphase]
    exact hrefl
  | .payout (.loadUnpaidRewards up total) =>
    have hphase : s.payout.phase ≠ .waiting := h
    rw [step, if_neg hphase]
    exact hrefl
  | .payout (.restart n) => exact hrefl
  | .payout (.pool up st) => exact sameSchedule_cycle _ nofun nofun
  | .payout (.updateNextPayout up) => exact sameSchedule_cycle _ nofun nofun
  | .payout (.transfer reply) => exact sameSchedule_cycle _ nofun nofun
  | .payout (.addPayout up) => exact sameSchedule_cycle _ nofun nofun
  | .payout (.getLastId up) => exact sameSchedule_cycle _ nofun nofun
  | .payout (.addPayoutEntry up) => exact sameSchedule_cycle _ nofun nofun

/-- What an iteration can do: it waits, and then makes no payout; or it makes one, after which
the next is an interval later, unless the program has ended. -/
theorem step_cases (cfg : PaymentConfig) (h : s.iterates e) :
    s.payout.phase = .waiting ∧
      (s.step cfg e).waits = s.waits ++ [(s.payout.nextPayment : Int) - s.curtime] ∧
      (s.step cfg e).curtime = s.curtime ∧
      (((s.step cfg e).times = s.times ∧
          (s.step cfg e).payout.nextPayment = s.payout.nextPayment) ∨
        ((s.step cfg e).times = s.times ++ [s.payout.nextPayment * 1000] ∧
          ((s.step cfg e).payout.phase = .exited ∨
            (s.step cfg e).payout.nextPayment =
              s.payout.nextPayment + cfg.paymentIntervalSeconds))) := by
  match e with
  | .message =>
    have hphase : s.payout.phase = .waiting := h
    rw [step, if_pos hphase]
    exact ⟨hphase, rfl, rfl, .inl ⟨rfl, rfl⟩⟩
  | .redisError =>
    have hphase : s.payout.phase = .waiting := h
    rw [step, if_pos hphase]
    exact ⟨hphase, rfl, rfl, .inl ⟨rfl, rfl⟩⟩
  | .payout (.loadUnpaidRewards up total) =>
    have hphase : s.payout.phase = .waiting := h
    rw [step, if_pos hphase]
    refine ⟨hphase, rfl, rfl, .inr ⟨rfl, ?_⟩⟩
    cases up with
    | true =>
      right
      simp [PayoutState.step, hphase]
    | false =>
      left
      simp [PayoutState.step, hphase]

/-! ## Runs -/

/-- The payouts so far and the next one are multiples of the interval, the first of them the next
one behind the start. -/
structure OnTime (cfg : PaymentConfig) (s : PayoutLoop) : Prop where
  next : s.payout.phase ≠ .exited → s.payout.nextPayment =
    (s.curtime / cfg.paymentIntervalSeconds + 1 + s.times.length) * cfg.paymentIntervalSeconds
  times : s.times = (List.range s.times.length).map
    (fun j => (s.curtime / cfg.paymentIntervalSeconds + 1 + j) * cfg.paymentIntervalSeconds * 1000)
  waits : ∀ wait ∈ s.waits, wait ≤ cfg.paymentIntervalSeconds

theorem OnTime.punctual (h : s.OnTime cfg) : s.Punctual cfg := ⟨h.waits, _, h.times⟩

theorem onTime_start (cfg : PaymentConfig) (books : Books) (curtime : Nat) :
    (start cfg books curtime).OnTime cfg where
  next := by
    intro _
    show curtime + cfg.paymentIntervalSeconds - curtime % cfg.paymentIntervalSeconds =
      (curtime / cfg.paymentIntervalSeconds + 1 + 0) * cfg.paymentIntervalSeconds
    have hdiv := Nat.div_add_mod' curtime cfg.paymentIntervalSeconds
    rw [Nat.add_zero, Nat.add_mul, Nat.one_mul]
    omega
  times := rfl
  waits := fun _ h => absurd h List.not_mem_nil

/-- The wait of the iteration behind `s.times.length` payouts. -/
theorem OnTime.wait_le_iff (h : s.OnTime cfg) (hpos : 0 < cfg.paymentIntervalSeconds)
    (hphase : s.payout.phase = .waiting) :
    (s.payout.nextPayment : Int) - s.curtime ≤ cfg.paymentIntervalSeconds ↔ s.times = [] := by
  have hnext := h.next (by rw [hphase]; decide)
  have hdiv := Nat.div_add_mod' s.curtime cfg.paymentIntervalSeconds
  have hmod := Nat.mod_lt s.curtime hpos
  rw [Nat.add_mul, Nat.add_mul, Nat.one_mul] at hnext
  constructor
  · intro hle
    by_contra hne
    have hlen : 1 ≤ s.times.length := List.length_pos_iff.mpr hne
    have hmul := Nat.mul_le_mul_right cfg.paymentIntervalSeconds hlen
    omega
  · intro hnil
    rw [hnil, List.length_nil, Nat.zero_mul] at hnext
    omega

theorem OnTime.quiet {s' : PayoutLoop} (h : s.OnTime cfg) (hsame : SameSchedule s s') :
    s'.OnTime cfg where
  next := by
    intro hphase
    rw [hsame.next, hsame.curtime, hsame.times]
    exact h.next (fun hexited => hphase (hsame.exited hexited))
  times := by
    rw [hsame.times, hsame.curtime]
    exact h.times
  waits := by
    rw [hsame.waits]
    exact h.waits

theorem OnTime.step (h : s.OnTime cfg) (hpos : 0 < cfg.paymentIntervalSeconds)
    (hok : s.BeforePayouts e) : (s.step cfg e).OnTime cfg := by
  by_cases hiterates : s.iterates e
  · obtain ⟨hphase, hwaits, hcurtime, hcases⟩ := step_cases cfg hiterates
    have hnext := h.next (by rw [hphase]; decide)
    have hwait := (h.wait_le_iff hpos hphase).mpr (hok hiterates)
    have hle : ∀ wait ∈ (s.step cfg e).waits, wait ≤ cfg.paymentIntervalSeconds := by
      intro wait hmem
      rw [hwaits] at hmem
      rcases List.mem_append.mp hmem with hold | hnew
      · exact h.waits wait hold
      · rw [List.mem_singleton.mp hnew]
        exact hwait
    rcases hcases with ⟨htimes, hsame⟩ | ⟨htimes, hmoved⟩
    · refine ⟨?_, ?_, hle⟩
      · intro _
        rw [hsame, hcurtime, htimes]
        exact hnext
      · rw [htimes, hcurtime]
        exact h.times
    · refine ⟨?_, ?_, hle⟩
      · intro hrunning
        rw [hcurtime, htimes, List.length_append, List.length_singleton,
          hmoved.resolve_left hrunning, hnext, ← Nat.add_assoc, Nat.add_mul _ 1, Nat.one_mul]
      · rw [htimes, hcurtime, List.length_append, List.length_singleton, List.range_succ,
          List.map_append, ← h.times, hnext]
        rfl
  · exact h.quiet (sameSchedule_step hiterates)

theorem beforePayouts_of_punctual (h : s.OnTime cfg) (hpos : 0 < cfg.paymentIntervalSeconds)
    (hpunctual : (s.step cfg e).Punctual cfg) : s.BeforePayouts e := by
  intro hiterates
  obtain ⟨hphase, hwaits, -, -⟩ := step_cases cfg hiterates
  apply (h.wait_le_iff hpos hphase).mp
  apply hpunctual.waits
  rw [hwaits]
  exact List.mem_append_right _ (List.mem_singleton_self _)

/-- The loop keeps to its schedule exactly as long as it has not come back from a payout. -/
theorem punctual_iff (cfg : PaymentConfig) (books : Books) (curtime : Nat)
    (hpos : 0 < cfg.paymentIntervalSeconds) (events : List LoopEvent) :
    Always (step cfg) (Punctual cfg) (start cfg books curtime) events ↔
      Guarded (step cfg) BeforePayouts (start cfg books curtime) events :=
  always_iff_guarded_of_invariant (I := OnTime cfg) (fun _ h => h.punctual)
    (fun _ _ h hok => h.step hpos hok)
    (fun _ _ h hpunctual => beforePayouts_of_punctual h hpos hpunctual)
    (onTime_start cfg books curtime) events

theorem punctual_before_first_payout :
    Always (step zanoPayments) (Punctual zanoPayments) (start zanoPayments emptyBooks 100)
      [.message, .message, .payout (.loadUnpaidRewards true 0)] := by
  apply (punctual_iff zanoPayments emptyBooks 100 (by decide) _).mpr
  exact ⟨fun _ => rfl, fun _ => rfl, fun _ => rfl, trivial⟩

/-- Started at 100 with an interval of 3600, the program pays at 3600 and then waits for 7100
seconds. -/
theorem wait_longer_than_interval :
    let events : List LoopEvent :=
      [.payout (.loadUnpaidRewards true 0), .payout (.updateNextPayout true), .message]
    (run (step zanoPayments) (start zanoPayments emptyBooks 100) events).waits = [3500, 7100] ∧
      ¬ Always (step zanoPayments) (Punctual zanoPayments) (start zanoPayments emptyBooks 100)
        events := by
  intro events
  have hwaits : (run (step zanoPayments) (start zanoPayments emptyBooks 100) events).waits =
      [3500, 7100] := by
    decide +kernel
  refine ⟨hwaits, ?_⟩
  intro h
  have hle := h.last.waits 7100 (by rw [hwaits]; decide)
  exact absurd hle (by decide)

end PayoutLoop
end SickPool.Payouts
