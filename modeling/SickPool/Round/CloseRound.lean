import SickPool.Persistence.BlockInsertion
import SickPool.Round.RedisRound
import SickPool.Round.RoundManager
import SickPool.Round.RoundStore

/-!
# Closing a round

`CloseRound` sets the efforts of the round back, then inserts the block, its rewards and the
new round, without a transaction. A failure on the way is returned, and what was done before
it stays.
-/
namespace SickPool.Round

open SickPool.Library SickPool.Persistence SickPool.Stats

/-- What becomes of the SQL statements of `SetClosedRound`: the `CALL` of `AddBlock`, the
query of the id and the statement for each reward. -/
structure SqlAnswers where
  call : CallEnd
  upId : Bool
  upReward : Nat → Bool

/-- The connection to MySQL, the hashes of Redis and its list of shares. -/
structure RoundDb where
  sql : Sql
  hashes : HashStore
  shares : List RoundShare

namespace RoundDb

def onSql {α : Type} (f : Sql → Sql × α) (r : RoundDb) : RoundDb × α :=
  ({ r with sql := (f r.sql).1 }, (f r.sql).2)

/-- `SetClosedRound`. `block_id` is a reference to `submission.id`, so the rewards are added
for the id that `AddBlockSubmission` leaves there. -/
def setClosedRound (k : KeyNames) (answers : SqlAnswers) (r : RoundDb)
    (submission : BlockSubmission) (roundShares : RoundShares) (timeMs : Nat) :
    RoundDb × RoundCloseRes :=
  let (sql, id, blockAdded) :=
    r.sql.addBlockSubmissionEnding answers.call answers.upId submission
  let (sql, rewardsAdded) := if blockAdded then
    sql.addRoundRewards answers.upReward id roundShares.entries else (sql, false)
  let (hashes, res) := SickPool.Round.setClosedRound k r.hashes blockAdded rewardsAdded
    (Int64.ofNat timeMs) submission.effortPercent
  ({ r with sql := sql, hashes := hashes }, res)

/-- `AddPendingShares`. A call without an end leaves the shares appended. -/
def addPendingShares (r : RoundDb) (pending : List RoundShare) : RoundDb × Bool :=
  match addPendingSharesEnd r.shares pending with
  | .set shares => ({ r with shares := shares }, true)
  | .running => ({ r with shares := r.shares ++ pending }, false)
  | .outOfBounds => ({ r with shares := r.shares ++ pending }, false)

/-- The layer of a pool process: accounts in MySQL, the round in both stores. -/
def roundLayer (k : KeyNames) (answers : SqlAnswers) : PersistenceLayer RoundDb where
  getMinerId := fun r => r.sql.getMinerId
  addMiner := fun r address ali joinTime minPayout =>
    r.onSql (·.addMiner address ali joinTime minPayout)
  createMinerStats := fun r _ _ _ _ => (r, true)
  updateAlias := fun r id ali => r.onSql (·.updateAlias id ali)
  getWorkerId := fun r => r.sql.getWorkerId
  addWorker := fun r minerId name joinTime => r.onSql (·.addWorker minerId name joinTime)
  createWorkerStats := fun r _ _ _ _ _ => (r, true)
  addPendingShares := addPendingShares
  setClosedRound := setClosedRound k answers
  setNewBlockStats := fun r _ height targetDiff =>
    { r with hashes := setNewBlockStats k r.hashes height (.num targetDiff) }

/-- Every statement is answered. -/
def answered : SqlAnswers := ⟨.completed, true, fun _ => true⟩

theorem addPendingShares_frame (r : RoundDb) (pending : List RoundShare) :
    (r.addPendingShares pending).1.sql = r.sql ∧
      (r.addPendingShares pending).1.hashes = r.hashes := by
  unfold addPendingShares
  split <;> exact ⟨rfl, rfl⟩

end RoundDb

/-! ## All or nothing -/

/-- Efforts and round in memory, the tables and the stored round are the same. -/
structure Untouched (rm rm' : RoundManager) (r r' : RoundDb) : Prop where
  efforts : rm'.effortsMap = rm.effortsMap
  round : rm'.round = rm.round
  blocks : r'.sql.db.blocks = r.sql.db.blocks
  rewards : r'.sql.db.rewards = r.sql.db.rewards
  miners : r'.sql.db.miners = r.sql.db.miners
  blockStats : r'.sql.db.blockStats = r.sql.db.blockStats
  roundInfo : r'.hashes = r.hashes

section Close

variable {k : KeyNames} {answers : SqlAnswers} {rm : RoundManager} {r : RoundDb}
  {submission : BlockSubmission}

theorem closeRound_manager : (rm.closeRound (RoundDb.roundLayer k answers) r submission).1 =
    { rm with pendingShares := [], effortsMap := rm.effortsMap.map (fun e => (e.1, 0)) } := rfl

/-- There are no rewards to add, so a round is closed if the id is read. -/
theorem closeRound_ok (h : answers.upId = true) :
    (rm.closeRound (RoundDb.roundLayer k answers) r submission).2.2 = .OK := by
  simp only [RoundManager.closeRound, RoundManager.pushPendingShares, RoundDb.roundLayer,
    RoundDb.setClosedRound, Sql.addBlockSubmissionEnding, Sql.getLastId, h, ↓reduceIte,
    Sql.addRoundRewards]
  rfl

/-- When the id is not read, the stores differ by what the `CALL` did. -/
theorem closeRound_failed (k : KeyNames) (rm : RoundManager) (r : RoundDb)
    (submission : BlockSubmission) (h : answers.upId = false) :
    (rm.closeRound (RoundDb.roundLayer k answers) r submission).2.2 = .BAD_ADD_BLOCK ∧
      (rm.closeRound (RoundDb.roundLayer k answers) r submission).2.1.sql.db =
        (r.sql.callAddBlock submission answers.call).db ∧
      (rm.closeRound (RoundDb.roundLayer k answers) r submission).2.1.hashes = r.hashes := by
  obtain ⟨hsql, hhashes⟩ := r.addPendingShares_frame rm.pendingShares
  simp only [RoundManager.closeRound, RoundManager.pushPendingShares, RoundDb.roundLayer,
    RoundDb.setClosedRound, Sql.addBlockSubmissionEnding, Sql.getLastId, h, hsql]
  exact ⟨rfl, rfl, hhashes⟩

theorem reset_eq_self_iff {efforts : List (Nat × Double)} :
    efforts.map (fun e => (e.1, (0 : Double))) = efforts ↔ ∀ e ∈ efforts, e.2 = 0 := by
  have hmap : efforts.map (fun e => (e.1, (0 : Double))) = efforts ↔
      ∀ e ∈ efforts, (e.1, (0 : Double)) = e := by
    nth_rewrite 2 [← List.map_id efforts]
    exact List.map_inj_left
  rw [hmap]
  refine forall₂_congr fun e _ => ?_
  constructor
  · intro h
    exact (congrArg Prod.snd h).symm
  · intro h
    exact Prod.ext rfl h.symm

end Close

/-- A round is closed as a whole or not at all exactly if the id is read, or the efforts were
0 before and no block was inserted. -/
theorem closeRound_allOrNothing_iff (k : KeyNames) (answers : SqlAnswers) (rm : RoundManager)
    (r : RoundDb) (submission : BlockSubmission) :
    ((rm.closeRound (RoundDb.roundLayer k answers) r submission).2.2 ≠ .OK →
        Untouched rm (rm.closeRound (RoundDb.roundLayer k answers) r submission).1 r
          (rm.closeRound (RoundDb.roundLayer k answers) r submission).2.1) ↔
      answers.upId = true ∨
        (∀ e ∈ rm.effortsMap, e.2 = 0) ∧ ¬ Sql.Inserts r.sql.db answers.call submission := by
  cases hid : answers.upId with
  | true => exact iff_of_true (fun h => absurd (closeRound_ok hid) h) (.inl rfl)
  | false =>
    obtain ⟨hres, hdb, hhashes⟩ := closeRound_failed k rm r submission hid
    rw [← reset_eq_self_iff]
    constructor
    · intro h
      have huntouched := h (by rw [hres]; decide)
      have hefforts := huntouched.efforts
      rw [closeRound_manager] at hefforts
      refine .inr ⟨hefforts, fun hins => ?_⟩
      -- an inserted row stays in the table
      obtain ⟨⟨row, -, hblocks⟩, -⟩ := Sql.callAddBlock_inserts hins
      have hsame := huntouched.blocks
      rw [hdb, hblocks] at hsame
      exact absurd hsame (by simp)
    · rintro (h | ⟨hefforts, hfails⟩) -
      · cases h
      · have hsame := hdb.trans (Sql.callAddBlock_fails hfails)
        refine ⟨hefforts, rfl, ?_, ?_, ?_, ?_, hhashes⟩ <;> rw [hsame]

/-- A miner with an effort of 5. -/
def openRound : RoundManager := ⟨[], [(1, 5)], ⟨5, 0, 1000⟩⟩

def oneBlockStore : RoundDb := ⟨⟨Sql.oneBlock, 0⟩, emptyStore, []⟩

/-- The round is closed with a block that is inserted, and the id of the block is not read. -/
def closedUnread : RoundManager × RoundDb × RoundCloseRes :=
  openRound.closeRound (RoundDb.roundLayer ⟨Bytes.ascii "ZANO"⟩ ⟨.completed, false, fun _ => true⟩)
    oneBlockStore Sql.nextSubmission

/-- `CloseRound` reports a failed insertion; the effort is gone and the block is in the table. -/
theorem closeRound_half_closed :
    closedUnread.2.2 = .BAD_ADD_BLOCK ∧ closedUnread.1.effortsMap = [(1, 0)] ∧
      closedUnread.2.1.sql.db.blocks.map (·.height) = [7, 8] ∧
      ¬ Untouched openRound closedUnread.1 oneBlockStore closedUnread.2.1 := by
  refine ⟨rfl, rfl, by decide +kernel, fun h => ?_⟩
  exact absurd h.efforts (by decide +kernel)

end SickPool.Round
