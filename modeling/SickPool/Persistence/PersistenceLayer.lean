import SickPool.Persistence.MySqlManager
import SickPool.Stats.Stats

/-!
# The persistence layer

What the stratum server asks of the databases, over any kind of store, and the statements of
it that go to MySQL, on a connection that answers them all.
-/
namespace SickPool.Persistence

open SickPool.Library SickPool.Stats

inductive RoundCloseRes where
  | OK
  | BAD_SHARES_SUM
  | BAD_ADD_BLOCK
  | BAD_ADD_REWARDS
  | BAD_UPDATE_ROUND
  deriving DecidableEq

/-- `PersistenceLayer`. An id is `none` where the source has -1; an alias is empty
where there is none. `addPendingShares` also says whether the call comes to its end. -/
structure PersistenceLayer (R : Type) where
  getMinerId : R → Bytes → Bytes → Option Nat × Bytes
  addMiner : R → Bytes → Bytes → Nat → Nat → R × Option Nat
  createMinerStats : R → Bytes → Bytes → Nat → Nat → R × Bool
  updateAlias : R → Nat → Bytes → R × Bool
  getWorkerId : R → Nat → Bytes → Option Nat
  addWorker : R → Nat → Bytes → Nat → R × Option Nat
  createWorkerStats : R → FullId → Bytes → Bytes → Bytes → Nat → R × Bool
  addPendingShares : R → List RoundShare → R × Bool
  setClosedRound : R → BlockSubmission → RoundShares → Nat → R × RoundCloseRes
  setNewBlockStats : R → Bytes → Nat → ℚ → R

namespace Sql

/-- `alias.empty()` is stored as `NULL`. -/
def aliasParam (ali : Bytes) : Option Bytes := if ali = [] then none else some ali

/-- `GetMinerId`: the last row of the result counts. -/
def getMinerId (sql : Sql) (address ali : Bytes) : Option Nat × Bytes :=
  match (sql.db.getMiner address (aliasParam ali)).getLast? with
  | some (id, dbAlias) => (some id, dbAlias.getD [])
  | none => (none, [])

def addMiner (sql : Sql) (address ali : Bytes) (joinTime minPayout : Nat) : Sql × Option Nat :=
  match sql.execute true (·.addMiner address (aliasParam ali) minPayout joinTime) with
  | (sql, true) => (sql, (sql.getMinerId address ali).1)
  | (sql, false) => (sql, none)

def getWorkerId (sql : Sql) (minerId : Nat) (workerName : Bytes) : Option Nat :=
  (sql.db.getWorker minerId workerName).getLast?

def addWorker (sql : Sql) (minerId : Nat) (workerName : Bytes) (joinTime : Nat) :
    Sql × Option Nat :=
  match sql.execute true (·.addWorker minerId workerName joinTime) with
  | (sql, true) => (sql, sql.getWorkerId minerId workerName)
  | (sql, false) => (sql, none)

/-- `UpdateAlias`: a failure is logged and reported as success. -/
def updateAlias (sql : Sql) (id : Nat) (ali : Bytes) : Sql × Bool :=
  ((sql.execute true (·.updateAlias ali id)).1, true)

end Sql

end SickPool.Persistence
