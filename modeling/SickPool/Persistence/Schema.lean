import SickPool.Library.Bytes
import SickPool.Library.Table
import Mathlib.Data.Rat.Defs

/-!
# Tables and stored procedures

The tables of `scripts/setup/procedures.sql` that the modelled code reads or
writes, and its stored procedures. A statement returns the new database together
with whether it succeeded; a failed statement changes nothing, and the statements
of one procedure take effect one after the other. `address_md5` is written by
`AddMiner` and read by nothing, so it is left out.
-/
namespace SickPool.Persistence

open SickPool.Library
open SickPool.Library.Table (sumWhere)

/-- `BlockStatus`, stored in the `status` column as 1, 2, 4, 8 and 5. -/
inductive BlockStatus where
  | PENDING
  | CONFIRMED
  | ORPHANED
  | PAID
  | PENDING_ORPHANED
  deriving DecidableEq, Repr

def BlockStatus.immature : BlockStatus → Bool
  | .PENDING | .PENDING_ORPHANED => true
  | .CONFIRMED | .ORPHANED | .PAID => false

structure AddressRow where
  id : Nat
  address : Bytes
  ali : Option Bytes
  deriving DecidableEq

structure MinerRow where
  addressId : Nat
  matureBalance : Nat
  immatureBalance : Nat
  minimumPayout : Nat
  joinTime : Nat
  deriving DecidableEq

structure WorkerRow where
  id : Nat
  minerId : Nat
  name : Bytes
  joinTime : Nat
  deriving DecidableEq

structure BlockRow where
  id : Nat
  status : BlockStatus
  minerId : Nat
  workerId : Nat
  hash : Bytes
  reward : Nat
  timeMs : Nat
  durationMs : Nat
  height : Nat
  difficulty : ℚ
  effortPercent : ℚ
  deriving DecidableEq

structure RewardRow where
  id : Nat
  minerId : Nat
  blockId : Nat
  amount : Nat
  effort : ℚ
  deriving DecidableEq

structure BlockStatsRow where
  mined : Nat
  orphaned : Nat
  durationMs : Nat
  effortPercent : ℚ
  deriving DecidableEq

/-- The database of one coin. The `next` fields are the `AUTO_INCREMENT` counters;
`lastInsertId` is what `LAST_INSERT_ID()` returns on the connection. -/
structure Db where
  addresses : List AddressRow
  miners : List MinerRow
  workers : List WorkerRow
  blocks : List BlockRow
  rewards : List RewardRow
  blockStats : BlockStatsRow
  nextAddress : Nat
  nextWorker : Nat
  nextBlock : Nat
  nextReward : Nat
  lastInsertId : Nat
  deriving DecidableEq

/-- The database as `procedures.sql` leaves it. -/
def Db.empty : Db where
  addresses := []
  miners := []
  workers := []
  blocks := []
  rewards := []
  blockStats := ⟨0, 0, 0, 0⟩
  nextAddress := 1
  nextWorker := 1
  nextBlock := 1
  nextReward := 1
  lastInsertId := 0

def uint32Size : Nat := 2 ^ 32
def uint64Size : Nat := 2 ^ 64

namespace Db

/-- `CALL AddMiner`: the new address row, then the miner row for its id. -/
def addMiner (db : Db) (address : Bytes) (ali : Option Bytes)
    (minPayout joinTime : Nat) : Db × Bool :=
  if db.nextAddress < uint32Size ∧ (∀ r ∈ db.addresses, r.address ≠ address) ∧
      (∀ r ∈ db.addresses, ali.isSome → r.ali ≠ ali) then
    ({ db with
        addresses := db.addresses ++ [⟨db.nextAddress, address, ali⟩]
        miners := db.miners ++ [⟨db.nextAddress, 0, 0, minPayout, joinTime⟩]
        nextAddress := db.nextAddress + 1
        lastInsertId := db.nextAddress }, true)
  else (db, false)

/-- `CALL GetMiner`: the rows of that address or that alias. -/
def getMiner (db : Db) (address : Bytes) (ali : Option Bytes) : List (Nat × Option Bytes) :=
  (db.addresses.filter (fun r => r.address = address ∨ (ali.isSome ∧ r.ali = ali))).map
    (fun r => (r.id, r.ali))

def addWorker (db : Db) (minerId : Nat) (name : Bytes) (joinTime : Nat) : Db × Bool :=
  if db.nextWorker < uint32Size ∧ (∃ r ∈ db.miners, r.addressId = minerId) then
    ({ db with
        workers := db.workers ++ [⟨db.nextWorker, minerId, name, joinTime⟩]
        nextWorker := db.nextWorker + 1
        lastInsertId := db.nextWorker }, true)
  else (db, false)

def getWorker (db : Db) (minerId : Nat) (name : Bytes) : List Nat :=
  (db.workers.filter (fun r => r.minerId = minerId ∧ r.name = name)).map (·.id)

/-- `UPDATE addresses SET alias=? WHERE id=?`. -/
def updateAlias (db : Db) (ali : Bytes) (id : Nat) : Db × Bool :=
  if ∀ r ∈ db.addresses, r.id ≠ id → r.ali ≠ some ali then
    ({ db with addresses := db.addresses.map (fun r =>
        if r.id = id then { r with ali := some ali } else r) }, true)
  else (db, false)

/-- `CALL AddBlock`: a pending block row and the block statistics. -/
def addBlock (db : Db) (workerId minerId : Nat) (hash : Bytes)
    (reward timeMs durationMs height : Nat) (difficulty effortPercent : ℚ) : Db × Bool :=
  if db.nextBlock < uint32Size ∧ (∃ r ∈ db.workers, r.id = workerId) ∧
      (∃ r ∈ db.miners, r.addressId = minerId) then
    ({ db with
        blocks := db.blocks ++ [⟨db.nextBlock, .PENDING, minerId, workerId, hash, reward,
          timeMs, durationMs, height, difficulty, effortPercent⟩]
        blockStats := { db.blockStats with
          mined := db.blockStats.mined + 1
          durationMs := db.blockStats.durationMs + durationMs
          effortPercent := db.blockStats.effortPercent + effortPercent }
        nextBlock := db.nextBlock + 1
        lastInsertId := db.nextBlock }, true)
  else (db, false)

/-- `INSERT INTO rewards`, the first statement of `AddReward`. -/
def insertReward (db : Db) (minerId blockId amount : Nat) (effort : ℚ) : Db × Bool :=
  if db.nextReward < uint32Size ∧ (∃ r ∈ db.miners, r.addressId = minerId) ∧
      (∃ r ∈ db.blocks, r.id = blockId) then
    ({ db with
        rewards := db.rewards ++ [⟨db.nextReward, minerId, blockId, amount, effort⟩]
        nextReward := db.nextReward + 1
        lastInsertId := db.nextReward }, true)
  else (db, false)

/-- `UPDATE miners SET immature_balance = immature_balance + amount`, the second
statement of `AddReward`. -/
def creditImmature (db : Db) (minerId amount : Nat) : Db × Bool :=
  if ∀ r ∈ db.miners, r.addressId = minerId → r.immatureBalance + amount < uint64Size then
    ({ db with miners := db.miners.map (fun r =>
        if r.addressId = minerId then
          { r with immatureBalance := r.immatureBalance + amount } else r) }, true)
  else (db, false)

def addReward (db : Db) (minerId blockId amount : Nat) (effort : ℚ) : Db × Bool :=
  match db.insertReward minerId blockId amount effort with
  | (db, true) => db.creditImmature minerId amount
  | (db, false) => (db, false)

/-- The reward row a miner row is joined with by `a.address_id = b.miner_id` for
one block. A multiple-table `UPDATE` updates each matching row once. -/
def joinedReward (db : Db) (blockId : Nat) (m : MinerRow) : Option RewardRow :=
  db.rewards.find? (fun r => decide ((r.minerId, r.blockId) = (m.addressId, blockId)))

/-- `IF(status = 2, amount, 0)`. -/
def maturedAmount (status : BlockStatus) (r : RewardRow) : Nat :=
  if status = .CONFIRMED then r.amount else 0

/-- Both balances stay in the range of `BIGINT UNSIGNED`. -/
def matureFits (db : Db) (blockId : Nat) (status : BlockStatus) (m : MinerRow) : Prop :=
  match db.joinedReward blockId m with
  | none => True
  | some r => r.amount ≤ m.immatureBalance ∧
      m.matureBalance + maturedAmount status r < uint64Size

instance (db : Db) (blockId : Nat) (status : BlockStatus) (m : MinerRow) :
    Decidable (db.matureFits blockId status m) := by
  unfold matureFits
  split <;> infer_instance

def matureRow (db : Db) (blockId : Nat) (status : BlockStatus) (m : MinerRow) : MinerRow :=
  match db.joinedReward blockId m with
  | none => m
  | some r => { m with
      immatureBalance := m.immatureBalance - r.amount
      matureBalance := m.matureBalance + maturedAmount status r }

def matureRewards (db : Db) (blockId : Nat) (status : BlockStatus) : Db × Bool :=
  if ∀ m ∈ db.miners, db.matureFits blockId status m then
    ({ db with
        miners := db.miners.map (db.matureRow blockId status)
        blockStats := if status = .ORPHANED then
          { db.blockStats with orphaned := db.blockStats.orphaned + 1 } else db.blockStats },
      true)
  else (db, false)

/-- `UPDATE blocks SET status=? WHERE id=?`. -/
def updateBlockStatus (db : Db) (status : BlockStatus) (id : Nat) : Db × Bool :=
  ({ db with blocks := db.blocks.map (fun r =>
      if r.id = id then { r with status := status } else r) }, true)

def statusOf (db : Db) (id : Nat) : Option BlockStatus :=
  (db.blocks.find? (fun r => decide (r.id = id))).map (·.status)

/-- The sum of a miner's rewards on blocks whose status meets a condition. -/
def rewardsWhere (db : Db) (p : BlockStatus → Bool) (miner : Nat) : Nat :=
  sumWhere (fun r => decide (r.minerId = miner) && (db.statusOf r.blockId).any p)
    (·.amount) db.rewards

end Db
end SickPool.Persistence
