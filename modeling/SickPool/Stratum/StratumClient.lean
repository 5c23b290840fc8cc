import SickPool.Difficulty.VarDiff
import SickPool.Stats.Stats
import SickPool.Utils.HexUtils
import Mathlib.Data.Finset.Insert

/-!
# One client of the stratum server

`StratumClient`: its difficulty, the workers it has authorised and the set of the
first 32 bits of its share hashes. The clock is read inside some of the operations;
such a reading is an argument here.
-/
namespace SickPool.Stratum

open SickPool.Library SickPool.Persistence SickPool.Difficulty SickPool.Stats

/-- `StratumClient`. `statsIt` is the position of its iterator in the statistics
list; it, `lastAdjusted` and `lastShareTime` are not set by the constructor. -/
structure StratumClient where
  varDiff : VarDiff
  connectTime : Nat
  extraNonce : Nat
  statsIt : Nat
  lastAdjusted : Nat
  lastShareTime : Nat
  currentDiff : Double
  pendingDiff : Option Double
  authorizedWorkers : List (Bytes × FullId)
  shareUset : Finset Nat
  deriving DecidableEq

/-- The members the constructor leaves alone. -/
structure Uninitialised where
  statsIt : Nat
  lastAdjusted : Nat
  lastShareTime : Nat

namespace StratumClient

/-- The constructor, with the value it takes from `extra_nonce_counter`. -/
def new (old : Uninitialised) (extraNonce time : Nat) (diff rate : Double)
    (retargetInterval : Nat) : StratumClient where
  varDiff := VarDiff.new rate retargetInterval
  connectTime := time
  extraNonce := extraNonce
  statsIt := old.statsIt
  lastAdjusted := old.lastAdjusted
  lastShareTime := old.lastShareTime
  currentDiff := diff
  pendingDiff := none
  authorizedWorkers := []
  shareUset := ∅

/-- `extra_nonce_hex`: the digits of the number's bytes in memory order. -/
def extraNonceHex (cli : StratumClient) : Bytes :=
  Utils.hexlify (Bytes.leBytes 4 cli.extraNonce)

def getHasAuthorized (cli : StratumClient) : Bool := !cli.authorizedWorkers.isEmpty

def getAuthorizedId (cli : StratumClient) (workerName : Bytes) : Option FullId :=
  cli.authorizedWorkers.lookup workerName

/-- `SetPendingDifficulty`, with the time it reads. -/
def setPendingDifficulty (cli : StratumClient) (diff : Double) (curtime : Nat) : StratumClient :=
  { cli with pendingDiff := some diff, lastAdjusted := curtime }

/-- `ActivatePendingDiff`. It is called with a pending difficulty only. -/
def activatePendingDiff (cli : StratumClient) : StratumClient :=
  { cli with currentDiff := cli.pendingDiff.getD cli.currentDiff, pendingDiff := none }

/-- The end of `HandleAdjust`: a difficulty other than 0 becomes the pending one. -/
def setAdjusted (cli : StratumClient) (adjusted : VarDiff × Double) (curtime : Nat) :
    StratumClient :=
  if adjusted.2 ≠ 0 then
    { cli with varDiff := adjusted.1 }.setPendingDifficulty adjusted.2 curtime
  else { cli with varDiff := adjusted.1 }

/-- `HandleAdjust`, with the time `SetPendingDifficulty` reads. -/
def handleAdjust (cli : StratumClient) (time curtime : Nat) : StratumClient :=
  cli.setAdjusted (cli.varDiff.adjust cli.currentDiff time cli.lastAdjusted) curtime

/-- The locked part of `SetLastShare`, with the share times after `Add`. -/
def insertShare (cli : StratumClient) (shareEnd time : Nat) (added : VarDiff) : StratumClient :=
  { cli with
    varDiff := added
    lastShareTime := time
    shareUset := insert shareEnd cli.shareUset }

/-- `SetLastShare`, with whether the share was new. -/
def setLastShare (cli : StratumClient) (shareEnd time curtime : Nat) : StratumClient × Bool :=
  ((cli.insertShare shareEnd time
      (cli.varDiff.add (sub64 time cli.lastShareTime))).handleAdjust time curtime,
    decide (shareEnd ∉ cli.shareUset))

def resetShareSet (cli : StratumClient) : StratumClient := { cli with shareUset := ∅ }

/-- `AuthorizeWorker`: a name that is there already keeps its id. -/
def authorizeWorker (cli : StratumClient) (fullId : FullId) (workerName : Bytes) (workerIt : Nat) :
    StratumClient :=
  { cli with
    authorizedWorkers := if (cli.authorizedWorkers.lookup workerName).isSome
      then cli.authorizedWorkers else cli.authorizedWorkers ++ [(workerName, fullId)]
    statsIt := workerIt }

/-! ## What the operations leave alone -/

theorem setAdjusted_eq (cli : StratumClient) (adjusted : VarDiff × Double) (curtime : Nat) :
    ∃ varDiff pendingDiff lastAdjusted, cli.setAdjusted adjusted curtime =
      { cli with
        varDiff := varDiff
        pendingDiff := pendingDiff
        lastAdjusted := lastAdjusted } := by
  unfold setAdjusted setPendingDifficulty
  split
  · exact ⟨adjusted.1, some adjusted.2, curtime, rfl⟩
  · exact ⟨adjusted.1, cli.pendingDiff, cli.lastAdjusted, rfl⟩

/-- `SetLastShare` puts the first 32 bits of the hash into the set and reports whether
they were new; besides it changes the times and what `HandleAdjust` changes. -/
theorem setLastShare_eq (cli : StratumClient) (shareEnd time curtime : Nat) :
    ∃ varDiff pendingDiff lastAdjusted, cli.setLastShare shareEnd time curtime =
      ({ cli with
        varDiff := varDiff
        pendingDiff := pendingDiff
        lastAdjusted := lastAdjusted
        lastShareTime := time
        shareUset := insert shareEnd cli.shareUset }, decide (shareEnd ∉ cli.shareUset)) := by
  obtain ⟨varDiff, pendingDiff, lastAdjusted, h⟩ := setAdjusted_eq
    (cli.insertShare shareEnd time (cli.varDiff.add (sub64 time cli.lastShareTime)))
    ((cli.insertShare shareEnd time (cli.varDiff.add (sub64 time cli.lastShareTime))).varDiff.adjust
      (cli.insertShare shareEnd time
        (cli.varDiff.add (sub64 time cli.lastShareTime))).currentDiff time
      (cli.insertShare shareEnd time
        (cli.varDiff.add (sub64 time cli.lastShareTime))).lastAdjusted) curtime
  refine ⟨varDiff, pendingDiff, lastAdjusted, ?_⟩
  rw [setLastShare, handleAdjust, h]
  rfl

/-- `AuthorizeWorker` gives its id to a name that has none. -/
theorem authorizeWorker_lookup (cli : StratumClient) (fullId : FullId)
    (workerName name : Bytes) (workerIt : Nat) :
    (cli.authorizeWorker fullId workerName workerIt).getAuthorizedId name =
      (cli.getAuthorizedId name).or (if name = workerName then some fullId else none) := by
  unfold authorizeWorker getAuthorizedId
  by_cases hk : (cli.authorizedWorkers.lookup workerName).isSome
  · simp only [hk, ↓reduceIte]
    by_cases hn : name = workerName
    · obtain ⟨fid, hfid⟩ := Option.isSome_iff_exists.mp hk
      rw [hn, hfid]
      rfl
    · rw [if_neg hn, Option.or_none]
  · simp only [hk, Bool.false_eq_true, ↓reduceIte, List.lookup_append]
    by_cases hn : name = workerName
    · simp [hn]
    · have hnone : List.lookup name [(workerName, fullId)] = none := by
        rw [List.lookup_eq_none_iff]
        simpa using hn
      rw [hnone, if_neg hn]

/-- A worker name is known after `AuthorizeWorker` when it was known before or is the
name given. -/
theorem authorizeWorker_getAuthorizedId (cli : StratumClient) (fullId : FullId)
    (workerName name : Bytes) (workerIt : Nat) :
    ((cli.authorizeWorker fullId workerName workerIt).getAuthorizedId name).isSome ↔
      (cli.getAuthorizedId name).isSome ∨ name = workerName := by
  rw [authorizeWorker_lookup, Option.isSome_or, Bool.or_eq_true]
  by_cases hn : name = workerName <;> simp [hn]

theorem authorizeWorker_getHasAuthorized (cli : StratumClient) (fullId : FullId)
    (workerName : Bytes) (workerIt : Nat) :
    (cli.authorizeWorker fullId workerName workerIt).getHasAuthorized = true := by
  unfold authorizeWorker getHasAuthorized
  by_cases hk : (cli.authorizedWorkers.lookup workerName).isSome
  · have hne : cli.authorizedWorkers ≠ [] := fun hnil => by simp [hnil] at hk
    simp [hk, hne]
  · simp [hk]

end StratumClient
end SickPool.Stratum
