import SickPool.Persistence.PersistenceLayer

/-!
# The round manager

`RoundManager`: the efforts of the current round and the shares not yet pushed to the
PPLNS window.
-/
namespace SickPool.Round

open SickPool.Library SickPool.Persistence SickPool.Stats

structure RoundManager where
  pendingShares : List RoundShare
  effortsMap : List (Nat × Double)
  round : Stats.Round
  deriving DecidableEq

/-- `efforts_map[miner_id] += effort`. -/
def addEffort (minerId : Nat) (effort : Double) : List (Nat × Double) → List (Nat × Double)
  | [] => [(minerId, 0 + effort)]
  | (m, e) :: rest => if m = minerId then (m, e + effort) :: rest
      else (m, e) :: addEffort minerId effort rest

namespace RoundManager

def addRoundShare (rm : RoundManager) (minerId : Nat) (effort : Double) : RoundManager :=
  { rm with
    effortsMap := addEffort minerId effort rm.effortsMap
    round := { rm.round with totalEffort := rm.round.totalEffort + effort } }

def addRoundSharePPLNS (rm : RoundManager) (minerId : Nat) (effort : Double) : RoundManager :=
  { rm with pendingShares := rm.pendingShares ++ [⟨minerId, effort⟩] }

def resetRoundEfforts (rm : RoundManager) : RoundManager :=
  { rm with effortsMap := rm.effortsMap.map (fun e => (e.1, 0)) }

variable {R : Type}

/-- `PushPendingShares`, when `AddPendingShares` comes to its end. -/
def pushPendingShares (pl : PersistenceLayer R) (rm : RoundManager) (r : R) : RoundManager × R :=
  ({ rm with pendingShares := [] }, (pl.addPendingShares r rm.pendingShares).1)

def pushReturns (pl : PersistenceLayer R) (rm : RoundManager) (r : R) : Bool :=
  (pl.addPendingShares r rm.pendingShares).2

/-- `CloseRound`, when its push comes to its end. The map of round shares it passes on is
empty. -/
def closeRound (pl : PersistenceLayer R) (rm : RoundManager) (r : R) (submission : BlockSubmission) :
    RoundManager × R × RoundCloseRes :=
  let (rm, r) := rm.pushPendingShares pl r
  (rm.resetRoundEfforts, pl.setClosedRound r submission ⟨[], by simp⟩ submission.timeMs)

end RoundManager
end SickPool.Round
