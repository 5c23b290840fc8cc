import SickPool.Library.Run
import SickPool.Round.CloseRound
import SickPool.Stratum.StratumServer
import Mathlib.Algebra.BigOperators.Group.List.Basic

/-!
# The effort of a round

The effort since the last block is kept twice in memory, as a total and per miner, beside
the time the round started. `CloseRound` sets the efforts of the miners to 0 and writes the
start of the new round to Redis, but leaves `round` as it is: the total and the start time
in memory still are those of the first round after the program was started.
-/
namespace SickPool.Round

open SickPool.Library SickPool.Library.Run SickPool.Persistence SickPool.Stats SickPool.Jobs
open SickPool.Shares SickPool.Difficulty SickPool.Stratum

variable {R : Type}

/-- The calls that touch the round. -/
inductive RoundEvent where
  | addRoundShare (minerId : Nat) (effort : Double)
  | addRoundSharePPLNS (minerId : Nat) (effort : Double)
  | pushPendingShares
  | closeRound (submission : BlockSubmission)

/-- The round manager and its store, with the effort added since the last `CloseRound`
and the time of the block that was closed last. -/
structure RoundBooks (R : Type) where
  manager : RoundManager
  store : R
  added : Double
  lastClosed : Option Nat

namespace RoundBooks

/-- After `LoadCurrentRound`, which leaves `total_effort` at 0. -/
def start (store : R) (estimatedEffort : Double) (roundStartMs : Nat) : RoundBooks R where
  manager := ⟨[], [], ⟨0, estimatedEffort, roundStartMs⟩⟩
  store := store
  added := 0
  lastClosed := none

def step (pl : PersistenceLayer R) (b : RoundBooks R) : RoundEvent → RoundBooks R
  | .addRoundShare minerId effort =>
    { b with manager := b.manager.addRoundShare minerId effort, added := b.added + effort }
  | .addRoundSharePPLNS minerId effort =>
    { b with manager := b.manager.addRoundSharePPLNS minerId effort }
  | .pushPendingShares =>
    { b with
      manager := (b.manager.pushPendingShares pl b.store).1
      store := (b.manager.pushPendingShares pl b.store).2 }
  | .closeRound submission =>
    { manager := (b.manager.closeRound pl b.store submission).1
      store := (b.manager.closeRound pl b.store submission).2.1
      added := 0
      lastClosed := some submission.timeMs }

/-- What `HandleShare` records for a block covers the shares since the last block, and the
time since it when there is one. -/
def RecordsRound (b : RoundBooks R) : Prop :=
  ∀ (p : StratumProtocol) (env : Env R) (srv : Server p R) (id : FullId) (job : Job p)
    (share : Share p) (res : ShareResult) (call : Stratum.Call), srv.roundManager = b.manager →
    (blockSubmission env srv id job share res call).effortPercent =
        b.added / .num job.base.expectedHashes * 100 ∧
      ∀ time, b.lastClosed = some time →
        (blockSubmission env srv id job share res call).durationMs = sub64 call.time time

/-- The round in memory is the round since the last block. -/
structure Agrees (b : RoundBooks R) : Prop where
  efforts : b.manager.round.totalEffort = (b.manager.effortsMap.map Prod.snd).sum
  added : b.manager.round.totalEffort = b.added
  started : ∀ time, b.lastClosed = some time → b.manager.round.roundStartMs = time
  recorded : RecordsRound b

/-- A round is closed with no effort in it, by a block of the time it started. -/
def ClosesEmptyRound (b : RoundBooks R) : RoundEvent → Prop
  | .closeRound submission => b.manager.round.totalEffort = 0 ∧
      b.manager.round.roundStartMs = submission.timeMs
  | _ => True

/-! ## One call -/

theorem recordsRound_of {b : RoundBooks R} (ha : b.manager.round.totalEffort = b.added)
    (hs : ∀ time, b.lastClosed = some time → b.manager.round.roundStartMs = time) :
    RecordsRound b := by
  intro p env srv id job share res call hsrv
  constructor
  · rw [← ha, ← hsrv]
    rfl
  · intro time htime
    rw [← hs time htime, ← hsrv]
    rfl

theorem sum_addEffort (minerId : Nat) (effort : Double) (efforts : List (Nat × Double)) :
    ((addEffort minerId effort efforts).map Prod.snd).sum =
      (efforts.map Prod.snd).sum + effort := by
  induction efforts with
  | nil => simp [addEffort, add_comm]
  | cons entry rest ih =>
    obtain ⟨m, e⟩ := entry
    unfold addEffort
    split
    · simp only [List.map_cons, List.sum_cons, add_assoc, add_comm effort]
    · simp only [List.map_cons, List.sum_cons, ih, add_assoc]

theorem sum_resetRoundEfforts (rm : RoundManager) :
    (rm.resetRoundEfforts.effortsMap.map Prod.snd).sum = 0 := by
  apply List.sum_eq_zero
  intro e he
  simp only [RoundManager.resetRoundEfforts, List.map_map, List.mem_map] at he
  obtain ⟨entry, -, rfl⟩ := he
  rfl

theorem agrees_start (store : R) (estimatedEffort : Double) (roundStartMs : Nat) :
    Agrees (start store estimatedEffort roundStartMs) := by
  have hs : ∀ time, (start store estimatedEffort roundStartMs).lastClosed = some time →
      (start store estimatedEffort roundStartMs).manager.round.roundStartMs = time := by
    intro time h
    cases h
  exact ⟨rfl, rfl, hs, recordsRound_of rfl hs⟩

/-- After `CloseRound` the round in memory is the new round exactly when the total was 0
and the start time that of the block already: neither is written. -/
theorem agrees_step_iff (pl : PersistenceLayer R) (b : RoundBooks R) (e : RoundEvent)
    (h : Agrees b) : Agrees (b.step pl e) ↔ ClosesEmptyRound b e := by
  cases e with
  | addRoundShare minerId effort =>
    refine iff_of_true ?_ trivial
    have ha : (b.step pl (.addRoundShare minerId effort)).manager.round.totalEffort =
        b.added + effort := congrArg (· + effort) h.added
    refine ⟨?_, ha, h.started, recordsRound_of ha h.started⟩
    change b.manager.round.totalEffort + effort = _
    rw [h.efforts]
    exact (sum_addEffort minerId effort b.manager.effortsMap).symm
  | addRoundSharePPLNS minerId effort =>
    exact iff_of_true ⟨h.efforts, h.added, h.started, recordsRound_of h.added h.started⟩ trivial
  | pushPendingShares =>
    exact iff_of_true ⟨h.efforts, h.added, h.started, recordsRound_of h.added h.started⟩ trivial
  | closeRound submission =>
    constructor
    · exact fun h' => ⟨h'.added, h'.started _ rfl⟩
    · rintro ⟨htotal, hstart⟩
      have hs : ∀ time, (b.step pl (.closeRound submission)).lastClosed = some time →
          (b.step pl (.closeRound submission)).manager.round.roundStartMs = time := by
        intro time ht
        exact hstart.trans (Option.some.inj ht)
      refine ⟨?_, htotal, hs, recordsRound_of htotal hs⟩
      exact htotal.trans (sum_resetRoundEfforts (b.manager.pushPendingShares pl b.store).1).symm

/-- **When the round in memory is the round since the last block.** For every sequence of
calls, the total is the sum of the efforts of the miners and the effort added since the last
`CloseRound`, the start time is that of the last block, and `HandleShare` records just
these, in every state, exactly when every `CloseRound` finds a total of 0 and a start time
that is the time of its block. -/
theorem round_agrees_iff (pl : PersistenceLayer R) (store : R) (estimatedEffort : Double)
    (roundStartMs : Nat) (events : List RoundEvent) :
    Always (step pl) Agrees (start store estimatedEffort roundStartMs) events ↔
      Guarded (step pl) ClosesEmptyRound (start store estimatedEffort roundStartMs) events :=
  always_iff_guarded (agrees_step_iff pl) (agrees_start store estimatedEffort roundStartMs) events

/-! ## A second block -/

def oneMinerStore : RoundDb :=
  ⟨⟨((Db.empty.addMiner (Bytes.ascii "1") none 0 0).1.addWorker 1 (Bytes.ascii "w") 0).1, 0⟩,
    emptyStore, []⟩

def zanoLayer : PersistenceLayer RoundDb :=
  RoundDb.roundLayer ⟨Bytes.ascii "ZANO"⟩ RoundDb.answered

def foundBlock (timeMs : Nat) : BlockSubmission where
  id := 0
  minerId := 1
  workerId := 1
  blockType := .PENDING
  chain := 0
  reward := 10
  timeMs := timeMs
  durationMs := 0
  height := 100
  difficulty := 1
  effortPercent := 0
  hashBin := List.Vector.replicate 32 0

/-- The first block of a program, at time 2000 after an effort of 5, and a share of 7 for
the second. -/
def secondRound : List RoundEvent :=
  [.addRoundShare 1 5, .closeRound (foundBlock 2000), .addRoundShare 1 7]

/-- The block is closed with `OK`. After it the total is 12 for an effort of 7, and the
round still starts at 1000 instead of 2000. -/
theorem round_outlives_block :
    ((run (step zanoLayer) (start oneMinerStore 0 1000) [.addRoundShare 1 5]).manager.closeRound
        zanoLayer oneMinerStore (foundBlock 2000)).2.2 = .OK ∧
      (run (step zanoLayer) (start oneMinerStore 0 1000) secondRound).manager =
        ⟨[], [(1, 7)], ⟨12, 0, 1000⟩⟩ ∧
      (run (step zanoLayer) (start oneMinerStore 0 1000) secondRound).added = 7 ∧
      (run (step zanoLayer) (start oneMinerStore 0 1000) secondRound).lastClosed = some 2000 ∧
      ¬ Agrees (run (step zanoLayer) (start oneMinerStore 0 1000) secondRound) := by
  refine ⟨by decide +kernel, by decide +kernel, by decide +kernel, rfl, ?_⟩
  intro h
  have hstart := h.started 2000 rfl
  revert hstart
  decide +kernel

end RoundBooks
end SickPool.Round
