import SickPool.Persistence.PersistenceLayer

/-!
# The statistics manager

`StatsManager`: one entry of `worker_stats_map` for every authorisation, in order. An
iterator is a position in the list, from which nothing is ever erased.
-/
namespace SickPool.Stats

open SickPool.Library SickPool.Persistence

structure StatsManager where
  workerStatsMap : List (FullId × WorkerStats)
  toRemove : List Nat
  deriving DecidableEq

namespace StatsManager

def update (sm : StatsManager) (it : Nat) (f : WorkerStats → WorkerStats) : StatsManager :=
  { sm with workerStatsMap := sm.workerStatsMap.modify it (fun e => (e.1, f e.2)) }

def addValidShare (sm : StatsManager) (it : Nat) (diff : Double) : StatsManager :=
  sm.update it (fun ws => { ws with
    intervalValidShares := (ws.intervalValidShares + 1) % uint32Size
    currentIntervalEffort := ws.currentIntervalEffort + diff })

def addStaleShare (sm : StatsManager) (it : Nat) : StatsManager :=
  sm.update it (fun ws =>
    { ws with intervalStaleShares := (ws.intervalStaleShares + 1) % uint32Size })

def addInvalidShare (sm : StatsManager) (it : Nat) : StatsManager :=
  sm.update it (fun ws =>
    { ws with intervalInvalidShares := (ws.intervalInvalidShares + 1) % uint32Size })

/-- `AddExistingWorker`, with the iterator it returns. -/
def addExistingWorker (sm : StatsManager) (workerId : FullId) : StatsManager × Nat :=
  ({ sm with workerStatsMap := sm.workerStatsMap ++ [(workerId, WorkerStats.empty)] },
    sm.workerStatsMap.length)

def popWorker (sm : StatsManager) (it : Nat) : StatsManager :=
  { sm with toRemove := sm.toRemove ++ [it] }

def validCounters (sm : StatsManager) : List (FullId × Nat × Double) :=
  sm.workerStatsMap.map (fun e => (e.1, e.2.intervalValidShares, e.2.currentIntervalEffort))

/-- Whose each entry is. -/
def owners (sm : StatsManager) : List FullId := sm.workerStatsMap.map Prod.fst

theorem update_owners (sm : StatsManager) (it : Nat) (f : WorkerStats → WorkerStats) :
    (sm.update it f).owners = sm.owners := by
  unfold update owners
  apply List.ext_getElem
  · simp
  · intro i h1 h2
    simp only [List.getElem_map, List.getElem_modify]
    split <;> rfl

/-- An update that leaves the counter of valid shares and the effort of every entry
alone leaves them alone in the list. -/
theorem update_validCounters (sm : StatsManager) (it : Nat) (f : WorkerStats → WorkerStats)
    (hv : ∀ ws, (f ws).intervalValidShares = ws.intervalValidShares)
    (he : ∀ ws, (f ws).currentIntervalEffort = ws.currentIntervalEffort) :
    (sm.update it f).validCounters = sm.validCounters := by
  unfold update validCounters
  apply List.ext_getElem
  · simp
  · intro i h1 h2
    simp only [List.getElem_map, List.getElem_modify]
    split <;> simp [hv, he]

variable {R : Type}

/-- `std::tolower` on every character. -/
def toLowerCase (s : Bytes) : Bytes := s.map (fun c => if 65 ≤ c ∧ c ≤ 90 then c + 32 else c)

/-- `AddMiner`: the id, or `none` on failure. The row is added when there is no id; the
time series always are. -/
def addMiner (pl : PersistenceLayer R) (r : R) (minerId : Option Nat) (address ali : Bytes)
    (minPayout curtime : Nat) : R × Option Nat :=
  let (r, minerId) := match minerId with
    | some id => (r, some id)
    | none => pl.addMiner r address ali curtime minPayout
  match minerId with
  | none => (r, none)
  | some id =>
    match pl.createMinerStats r (toLowerCase address) ali id curtime with
    | (r, true) => (r, some id)
    | (r, false) => (r, none)

def addWorker (pl : PersistenceLayer R) (r : R) (workerId : Option Nat) (minerId : Nat)
    (address workerName ali : Bytes) (curtime : Nat) : R × Option Nat :=
  let (r, workerId) := match workerId with
    | some id => (r, some id)
    | none => pl.addWorker r (minerId % uint32Size) workerName curtime
  match workerId with
  | none => (r, none)
  | some id =>
    match pl.createWorkerStats r (FullId.ofIds minerId id) (toLowerCase address) workerName ali
        curtime with
    | (r, true) => (r, some id)
    | (r, false) => (r, none)

end StatsManager
end SickPool.Stats
