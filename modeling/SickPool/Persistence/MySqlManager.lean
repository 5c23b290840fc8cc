import SickPool.Library.Double
import SickPool.Payouts.RoundShare
import SickPool.Persistence.Schema
import SickPool.Utils.HexUtils

/-!
# The database client

`MySqlManager` on one connection. Every prepared statement may throw; the wrappers
log the exception and most of them go on. `errs` counts the logged exceptions, so a
run in which every statement succeeded is a run that leaves `errs` at 0.
-/
namespace SickPool.Persistence

open SickPool.Library
open SickPool.Payouts (RoundReward)
open SickPool.Utils (Hash32)

structure BlockSubmission where
  id : Nat
  minerId : Nat
  workerId : Nat
  blockType : BlockStatus
  chain : Nat
  reward : Nat
  timeMs : Nat
  durationMs : Nat
  height : Nat
  difficulty : Double
  effortPercent : Double
  hashBin : Hash32
  deriving DecidableEq

/-- `BlockOverview`: what `CheckImmatureSubmissions` keeps of a block row. -/
structure BlockOverview where
  id : Nat
  height : Nat
  lastStatus : BlockStatus
  hash : Bytes
  deriving DecidableEq

/-- `round_shares_t`: a map, so a miner occurs once. -/
structure RoundShares where
  entries : List (Nat × RoundReward Nat)
  nodup : (entries.map Prod.fst).Nodup

/-- The connection: the database and the number of logged exceptions. -/
structure Sql where
  db : Db
  errs : Nat
  deriving DecidableEq

namespace Sql

/-- Execute a prepared statement; `up` is false when the server fails it. -/
def execute (sql : Sql) (up : Bool) (statement : Db → Db × Bool) : Sql × Bool :=
  match if up then statement sql.db else (sql.db, false) with
  | (db, true) => (⟨db, sql.errs⟩, true)
  | (db, false) => (⟨db, sql.errs + 1⟩, false)

/-- `UpdateBlockStatus`: a failure is logged and reported as success. -/
def updateBlockStatus (sql : Sql) (up : Bool) (blockId : Nat) (status : BlockStatus) : Sql :=
  (sql.execute up (·.updateBlockStatus status blockId)).1

/-- `UpdateImmatureRewards`, with whether `MatureRewards` took effect. -/
def updateImmatureRewards (sql : Sql) (up : Bool) (blockId : Nat) (status : BlockStatus) :
    Sql × Bool :=
  sql.execute up (·.matureRewards blockId status)

/-- The rows `LoadImmatureBlocks` appends to the vector it is given. -/
def loadImmatureBlocks (sql : Sql) : List BlockOverview :=
  (sql.db.blocks.filter (·.status.immature)).map
    (fun r => ⟨r.id, r.height, r.status, r.hash⟩)

def getLastId (sql : Sql) (up : Bool) (id : Nat) : Sql × Nat × Bool :=
  if up then (sql, sql.db.lastInsertId, true) else (⟨sql.db, sql.errs + 1⟩, id, false)

/-- The prepared statement `add_block` for a submission. The server rejects a value
that its `DOUBLE` type does not have. -/
def addBlockStatement (submission : BlockSubmission) (db : Db) : Db × Bool :=
  match submission.difficulty, submission.effortPercent with
  | .num difficulty, .num effortPercent =>
    db.addBlock submission.workerId submission.minerId
      (Utils.hexlify submission.hashBin.toList) submission.reward submission.timeMs
      submission.durationMs submission.height difficulty effortPercent
  | _, _ => (db, false)

/-- `AddBlockSubmission`: a failed insert is logged, then the last id is read. -/
def addBlockSubmission (sql : Sql) (upBlock upId : Bool) (submission : BlockSubmission) :
    Sql × Nat × Bool :=
  (sql.execute upBlock (addBlockStatement submission)).1.getLastId upId submission.id

/-- `AddRoundRewards`: one `AddReward` per miner, up to the first failure. -/
def addRoundRewards (sql : Sql) (up : Nat → Bool) (blockId : Nat) :
    List (Nat × RoundReward Nat) → Sql × Bool
  | [] => (sql, true)
  | (minerId, reward) :: rest =>
    match sql.execute (up rest.length)
        (fun db => db.addReward minerId blockId reward.reward reward.effort) with
    | (sql, true) => addRoundRewards sql up blockId rest
    | (sql, false) => (sql, false)

/-- What the statement for every reward keeps, `AddRoundRewards` keeps. -/
theorem addRoundRewards_induction {P : Sql → Prop} {blockId : Nat}
    (hstep : ∀ (sql : Sql) (up : Bool) (minerId : Nat) (reward : RoundReward Nat), P sql →
      P (sql.execute up (fun db => db.addReward minerId blockId reward.reward reward.effort)).1)
    (up : Nat → Bool) (entries : List (Nat × RoundReward Nat)) {sql : Sql} (h : P sql) :
    P (sql.addRoundRewards up blockId entries).1 := by
  induction entries generalizing sql with
  | nil => exact h
  | cons e entries ih =>
    obtain ⟨minerId, reward⟩ := e
    have hone := hstep sql (up entries.length) minerId reward h
    simp only [addRoundRewards]
    split <;> rename_i sql1 hex <;> rw [hex] at hone
    · exact ih hone
    · exact hone

theorem execute_errs (sql : Sql) (up : Bool) (st : Db → Db × Bool) :
    sql.errs ≤ (sql.execute up st).1.errs := by
  unfold execute
  split <;> simp

theorem execute_up (sql : Sql) (st : Db → Db × Bool) :
    (sql.execute true st).1.db = (st sql.db).1 ∧ (sql.execute true st).2 = (st sql.db).2 := by
  unfold execute
  simp only [↓reduceIte]
  rcases st sql.db with ⟨db, ok⟩
  cases ok <;> exact ⟨rfl, rfl⟩

theorem execute_of_ok {sql : Sql} {up : Bool} {st : Db → Db × Bool}
    (h : (sql.execute up st).2 = true) :
    st sql.db = ((sql.execute up st).1.db, true) := by
  unfold execute at h ⊢
  cases up with
  | false => simp at h
  | true =>
    simp only [↓reduceIte] at h ⊢
    rcases hst : st sql.db with ⟨db, ok⟩
    cases ok with
    | false => simp [hst] at h
    | true => rfl

theorem execute_of_errs {sql : Sql} {up : Bool} {st : Db → Db × Bool}
    (h : (sql.execute up st).1.errs = 0) :
    sql.errs = 0 ∧ (st sql.db).2 = true ∧ sql.execute up st = (⟨(st sql.db).1, 0⟩, true) := by
  unfold execute at h ⊢
  cases up with
  | false => simp at h
  | true =>
    simp only [↓reduceIte] at h ⊢
    rcases hst : st sql.db with ⟨db, ok⟩
    cases ok with
    | false => simp [hst] at h
    | true => simp_all

end Sql
end SickPool.Persistence
