import SickPool.Persistence.MySqlManager

/-!
# What `AddBlockSubmission` reports

The exception of `CALL AddBlock` is logged, and the function goes on to `LAST_INSERT_ID()`,
which is of whatever table the connection inserted into last. The function so reports how the
query of the id went, not how the insertion did: after a refused insertion it returns true
with an old id, and the rewards go to another block.
-/
namespace SickPool.Persistence

open SickPool.Library
open SickPool.Payouts (RoundReward)

/-- How `CALL AddBlock` ends. Its statements take effect one after the other, so the
procedure can fail behind the `INSERT`, and the connection behind the procedure. -/
inductive CallEnd where
  | completed
  | refused
  | inserted
  | unreported
  deriving DecidableEq

namespace Db

/-- `INSERT INTO blocks`, the first statement of `AddBlock`. -/
def insertBlock (db : Db) (row : BlockRow) : Db :=
  { db with
    blocks := db.blocks ++ [row]
    nextBlock := db.nextBlock + 1
    lastInsertId := db.nextBlock }

/-- `UPDATE block_stats`, the second statement. -/
def countBlock (db : Db) (row : BlockRow) : Db :=
  { db with blockStats := { db.blockStats with
      mined := db.blockStats.mined + 1
      durationMs := db.blockStats.durationMs + row.durationMs
      effortPercent := db.blockStats.effortPercent + row.effortPercent } }

end Db

namespace Sql

/-- The row of a submission, if the table can hold it. -/
def submittedRow (submission : BlockSubmission) (id : Nat) : Option BlockRow :=
  match submission.difficulty, submission.effortPercent with
  | .num difficulty, .num effortPercent =>
    some ⟨id, .PENDING, submission.minerId, submission.workerId,
      Utils.hexlify submission.hashBin.toList, submission.reward, submission.timeMs,
      submission.durationMs, submission.height, difficulty, effortPercent⟩
  | _, _ => none

/-- The constraints of the table admit the row of a submission. -/
def Admits (db : Db) (submission : BlockSubmission) : Prop :=
  (submittedRow submission db.nextBlock).isSome ∧ db.nextBlock < uint32Size ∧
    (∃ r ∈ db.workers, r.id = submission.workerId) ∧
    (∃ r ∈ db.miners, r.addressId = submission.minerId)

instance (db : Db) (submission : BlockSubmission) : Decidable (Admits db submission) :=
  inferInstanceAs (Decidable (_ ∧ _ ∧ _ ∧ _))

theorem addBlockStatement_eq (submission : BlockSubmission) (db : Db) :
    addBlockStatement submission db =
      match submittedRow submission db.nextBlock with
      | some row => if Admits db submission then ((db.insertBlock row).countBlock row, true)
          else (db, false)
      | none => (db, false) := by
  cases hd : submission.difficulty with
  | num difficulty =>
    cases he : submission.effortPercent with
    | num effortPercent =>
      simp [addBlockStatement, Admits, submittedRow, hd, he, Db.addBlock, Db.insertBlock,
        Db.countBlock]
    | _ => simp only [addBlockStatement, submittedRow, hd, he]
  | _ => simp only [addBlockStatement, submittedRow, hd]

/-- The effect of `INSERT INTO blocks` alone. -/
def insertBlockStatement (submission : BlockSubmission) (db : Db) : Db :=
  match submittedRow submission db.nextBlock with
  | some row => if Admits db submission then db.insertBlock row else db
  | none => db

def callAddBlock (sql : Sql) (submission : BlockSubmission) : CallEnd → Sql
  | .completed => (sql.execute true (addBlockStatement submission)).1
  | .refused => (sql.execute false (addBlockStatement submission)).1
  | .inserted => ⟨insertBlockStatement submission sql.db, sql.errs + 1⟩
  | .unreported => ⟨(addBlockStatement submission sql.db).1, sql.errs + 1⟩

/-- `AddBlockSubmission` with every end of its `CALL`. The id is a reference to
`submission.id`. -/
def addBlockSubmissionEnding (sql : Sql) (call : CallEnd) (upId : Bool)
    (submission : BlockSubmission) : Sql × Nat × Bool :=
  (sql.callAddBlock submission call).getLastId upId submission.id

theorem addBlockSubmission_eq (sql : Sql) (upBlock upId : Bool) (submission : BlockSubmission) :
    sql.addBlockSubmission upBlock upId submission =
      sql.addBlockSubmissionEnding (if upBlock then .completed else .refused) upId
        submission := by
  cases upBlock <;> rfl

/-- The `INSERT` takes effect. -/
def Inserts (db : Db) (call : CallEnd) (submission : BlockSubmission) : Prop :=
  call ≠ .refused ∧ Admits db submission

/-- A row of the submission, with this id, was appended to the blocks. -/
def RowInserted (before after : Db) (submission : BlockSubmission) (id : Nat) : Prop :=
  ∃ row, submittedRow submission id = some row ∧ after.blocks = before.blocks ++ [row]

section Call

variable {sql : Sql} {submission : BlockSubmission} {call : CallEnd}

theorem callAddBlock_inserts (h : Inserts sql.db call submission) :
    RowInserted sql.db (sql.callAddBlock submission call).db submission sql.db.nextBlock ∧
      (sql.callAddBlock submission call).db.lastInsertId = sql.db.nextBlock := by
  obtain ⟨hcall, hadmits⟩ := h
  obtain ⟨row, hrow⟩ := Option.isSome_iff_exists.mp hadmits.1
  have hst : addBlockStatement submission sql.db =
      ((sql.db.insertBlock row).countBlock row, true) := by
    simp only [addBlockStatement_eq, hrow, if_pos hadmits]
  have hins : insertBlockStatement submission sql.db = sql.db.insertBlock row := by
    simp only [insertBlockStatement, hrow, if_pos hadmits]
  cases call with
  | refused => exact absurd rfl hcall
  | completed =>
    rw [callAddBlock, (execute_up sql _).1, hst]
    exact ⟨⟨row, hrow, rfl⟩, rfl⟩
  | unreported =>
    rw [callAddBlock, hst]
    exact ⟨⟨row, hrow, rfl⟩, rfl⟩
  | inserted =>
    rw [callAddBlock, hins]
    exact ⟨⟨row, hrow, rfl⟩, rfl⟩

theorem callAddBlock_fails (h : ¬ Inserts sql.db call submission) :
    (sql.callAddBlock submission call).db = sql.db := by
  by_cases hcall : call = .refused
  · subst hcall
    rfl
  · have hadmits : ¬ Admits sql.db submission := fun ha => h ⟨hcall, ha⟩
    have hst : (addBlockStatement submission sql.db).1 = sql.db := by
      rw [addBlockStatement_eq]
      cases submittedRow submission sql.db.nextBlock with
      | none => rfl
      | some row => simp only [if_neg hadmits]
    have hins : insertBlockStatement submission sql.db = sql.db := by
      rw [insertBlockStatement]
      cases submittedRow submission sql.db.nextBlock with
      | none => rfl
      | some row => simp only [if_neg hadmits]
    cases call with
    | refused => rfl
    | completed => rw [callAddBlock, (execute_up sql _).1, hst]
    | unreported => exact hst
    | inserted => exact hins

theorem not_rowInserted_self (db : Db) (submission : BlockSubmission) (id : Nat) :
    ¬ RowInserted db db submission id := by
  rintro ⟨row, -, h⟩
  have hlength := congrArg List.length h
  simp at hlength

theorem rowInserted_iff : (∃ id, RowInserted sql.db (sql.callAddBlock submission call).db
    submission id) ↔ Inserts sql.db call submission := by
  constructor
  · rintro ⟨id, h⟩
    by_contra hfails
    rw [callAddBlock_fails hfails] at h
    exact not_rowInserted_self _ _ _ h
  · intro h
    exact ⟨_, (callAddBlock_inserts h).1⟩

end Call

/-! ## The rewards -/

/-- Also a statement that fails behind its `INSERT` leaves a row of the block it was given. -/
theorem addReward_appends (db : Db) (minerId blockId amount : Nat) (effort : ℚ) :
    ∃ added, (db.addReward minerId blockId amount effort).1.rewards = db.rewards ++ added ∧
      ∀ r ∈ added, r.blockId = blockId := by
  have hcredit : ∀ db : Db, (db.creditImmature minerId amount).1.rewards = db.rewards := by
    intro db
    unfold Db.creditImmature
    split <;> rfl
  unfold Db.addReward Db.insertReward
  split_ifs with hins
  · exact ⟨[⟨db.nextReward, minerId, blockId, amount, effort⟩], hcredit _, by simp⟩
  · exact ⟨[], (List.append_nil _).symm, by simp⟩

theorem addRoundRewards_appends (up : Nat → Bool) (blockId : Nat)
    (entries : List (Nat × RoundReward Nat)) (sql : Sql) :
    ∃ added, (sql.addRoundRewards up blockId entries).1.db.rewards = sql.db.rewards ++ added ∧
      ∀ r ∈ added, r.blockId = blockId := by
  apply addRoundRewards_induction (P := fun s => ∃ added,
    s.db.rewards = sql.db.rewards ++ added ∧ ∀ r ∈ added, r.blockId = blockId) _ up entries
    ⟨[], (List.append_nil _).symm, by simp⟩
  rintro s up minerId reward ⟨before, hbefore, hids⟩
  cases up with
  | false => exact ⟨before, hbefore, hids⟩
  | true =>
    obtain ⟨added, hadded, hid⟩ := addReward_appends s.db minerId blockId reward.reward reward.effort
    refine ⟨before ++ added, ?_, ?_⟩
    · rw [(execute_up s _).1, hadded, hbefore, List.append_assoc]
    · intro r hr
      exact (List.mem_append.mp hr).elim (hids r) (hid r)

/-- `AddBlockSubmission` returns true exactly if the row of the submission was inserted, then
with the id of that row, and the rewards added for it are of that row. -/
structure Truthful (sql : Sql) (call : CallEnd) (upId : Bool) (submission : BlockSubmission) :
    Prop where
  reported : (sql.addBlockSubmissionEnding call upId submission).2.2 = true ↔
    ∃ id, RowInserted sql.db (sql.addBlockSubmissionEnding call upId submission).1.db submission id
  id_row : (sql.addBlockSubmissionEnding call upId submission).2.2 = true →
    RowInserted sql.db (sql.addBlockSubmissionEnding call upId submission).1.db submission
      (sql.addBlockSubmissionEnding call upId submission).2.1
  rewards : (sql.addBlockSubmissionEnding call upId submission).2.2 = true →
    ∀ (up : Nat → Bool) (shares : RoundShares), ∃ added,
      ((sql.addBlockSubmissionEnding call upId submission).1.addRoundRewards up
          (sql.addBlockSubmissionEnding call upId submission).2.1 shares.entries).1.db.rewards =
        (sql.addBlockSubmissionEnding call upId submission).1.db.rewards ++ added ∧
      ∀ r ∈ added, RowInserted sql.db
        (sql.addBlockSubmissionEnding call upId submission).1.db submission r.blockId

theorem addBlockSubmissionEnding_db (sql : Sql) (call : CallEnd) (upId : Bool)
    (submission : BlockSubmission) :
    (sql.addBlockSubmissionEnding call upId submission).1.db =
      (sql.callAddBlock submission call).db := by
  cases upId <;> rfl

theorem addBlockSubmissionEnding_ok (sql : Sql) (call : CallEnd) (upId : Bool)
    (submission : BlockSubmission) :
    (sql.addBlockSubmissionEnding call upId submission).2.2 = upId := by
  cases upId <;> rfl

/-- The report is true exactly if the id is read after an insertion and not read after none. -/
theorem addBlockSubmission_truthful_iff (sql : Sql) (call : CallEnd) (upId : Bool)
    (submission : BlockSubmission) :
    Truthful sql call upId submission ↔ (upId = true ↔ Inserts sql.db call submission) := by
  constructor
  · intro h
    have hreported := h.reported
    rwa [addBlockSubmissionEnding_ok, addBlockSubmissionEnding_db, rowInserted_iff] at hreported
  · intro h
    have hrow : (sql.addBlockSubmissionEnding call upId submission).2.2 = true →
        RowInserted sql.db (sql.addBlockSubmissionEnding call upId submission).1.db submission
          (sql.addBlockSubmissionEnding call upId submission).2.1 := by
      rw [addBlockSubmissionEnding_ok, addBlockSubmissionEnding_db]
      rintro rfl
      obtain ⟨hinserted, hlast⟩ := callAddBlock_inserts (h.mp rfl)
      have hid : (sql.addBlockSubmissionEnding call true submission).2.1 = sql.db.nextBlock :=
        hlast
      rwa [hid]
    refine ⟨?_, hrow, ?_⟩
    · rw [addBlockSubmissionEnding_ok, addBlockSubmissionEnding_db, rowInserted_iff]
      exact h
    · intro hok up shares
      obtain ⟨added, hadded, hids⟩ := addRoundRewards_appends up
        (sql.addBlockSubmissionEnding call upId submission).2.1 shares.entries
        (sql.addBlockSubmissionEnding call upId submission).1
      exact ⟨added, hadded, fun r hr => (hids r hr).symm ▸ hrow hok⟩

/-- A database with one miner, one worker and one block, all of id 1. The connection
inserted the worker last. -/
def oneBlock : Db :=
  { Db.empty with
    addresses := [⟨1, [82], none⟩]
    miners := [⟨1, 0, 0, 0, 0⟩]
    workers := [⟨1, 1, [119], 0⟩]
    blocks := [⟨1, .PENDING, 1, 1, [], 500, 1000, 10, 7, 3, 1⟩]
    blockStats := ⟨1, 0, 10, 1⟩
    nextAddress := 2
    nextWorker := 2
    nextBlock := 2
    lastInsertId := 1 }

/-- A block of height 8. -/
def nextSubmission : BlockSubmission :=
  ⟨0, 1, 1, .PENDING, 0, 600, 2000, 10, 8, 3, 1, List.Vector.replicate 32 0⟩

/-- The insertion is refused and the id answered: the function returns true with the id of
the block of height 7, and a reward is credited for that block. -/
theorem refused_insertion_reported :
    ¬ Truthful ⟨oneBlock, 0⟩ .refused true nextSubmission ∧
      (addBlockSubmissionEnding ⟨oneBlock, 0⟩ .refused true nextSubmission).2 = (1, true) ∧
      (addBlockSubmissionEnding ⟨oneBlock, 0⟩ .refused true nextSubmission).1.db.blocks.map
        (·.height) = [7] ∧
      ((addBlockSubmissionEnding ⟨oneBlock, 0⟩ .refused true nextSubmission).1.addRoundRewards
        (fun _ => true) 1 [(1, ⟨1, 1, 600⟩)]).1.db.rewards = [⟨1, 1, 1, 600, 1⟩] := by
  refine ⟨fun h => ?_, rfl, rfl, by decide +kernel⟩
  obtain ⟨id, hrow⟩ := h.reported.mp rfl
  exact not_rowInserted_self _ _ _ hrow

end Sql
end SickPool.Persistence
