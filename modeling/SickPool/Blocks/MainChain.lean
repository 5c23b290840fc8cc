import SickPool.Blocks.Maturation

/-!
# Blocks on the main chain

A pass tests the stored height against `height + COINBASE_MATURITY` and the daemon's
depth against `COINBASE_MATURITY`, both strictly. The stored height is one more than
the tip, the depth is counted from the tip, so the tests disagree on one height: with
the tip at `height + COINBASE_MATURITY` a block is settled and found too shallow. The
results below follow one block of the main chain through every run and say what
becomes of it when no pass looks at it there.
-/
namespace SickPool.Blocks.BlockWatcher

open SickPool.Library SickPool.Persistence SickPool.Persistence.Db
open SickPool.Payouts (RoundReward)
open SickPool.Library.Run (run Guarded)

/-- The daemon has tip `tip` and `hash` at `height`, answers every request for that
height, and the stored height is that of the template being mined. -/
structure Reports (pass : Pass) (tip height : Nat) (hash : Bytes) : Prop where
  stored : pass.currentHeight = tip + 1
  fits : pass.currentHeight < uint32Size
  mined : height ≤ tip
  depth : ∀ i, pass.header i height = some ⟨tip - height, hash⟩

/-- A pass that works on the block is not made when the tip is exactly
`COINBASE_MATURITY` above it, and neither 32-bit sum nor `int` depth wraps. -/
def ClearOfMaturity (confs : StaticConf) (id height : Nat) (w : Watch) : Event → Prop
  | .pass pass => id ∈ (pendingSubmissions w).map (·.id) →
      pass.currentHeight ≠ height + confs.COINBASE_MATURITY + 1 ∧
      height + confs.COINBASE_MATURITY < uint32Size ∧ pass.currentHeight ≤ height + 2 ^ 31
  | _ => True

instance (confs : StaticConf) (id height : Nat) (w : Watch) :
    ∀ e : Event, Decidable (ClearOfMaturity confs id height w e)
  | .pass _ => inferInstanceAs (Decidable (_ → _))
  | .addMiner .. | .addWorker .. | .newBlock .. => inferInstanceAs (Decidable True)

/-! ## Rows that a statement leaves alone -/

/-- Nothing is added to or taken from the blocks, and only the row of `id` may differ. -/
structure SameExcept (id : Nat) (db db' : Db) : Prop where
  ids : db'.blocks.map (·.id) = db.blocks.map (·.id)
  next : db'.nextBlock = db.nextBlock
  others : ∀ r : BlockRow, r.id ≠ id → (r ∈ db'.blocks ↔ r ∈ db.blocks)

theorem SameExcept.refl (id : Nat) (db : Db) : SameExcept id db db :=
  ⟨rfl, rfl, fun _ _ => Iff.rfl⟩

theorem SameExcept.trans {id : Nat} {a b c : Db} (h : SameExcept id a b)
    (h' : SameExcept id b c) : SameExcept id a c :=
  ⟨h'.ids.trans h.ids, h'.next.trans h.next,
    fun r hr => (h'.others r hr).trans (h.others r hr)⟩

theorem SameExcept.of_blocks {id : Nat} {db db' : Db} (hb : db'.blocks = db.blocks)
    (hn : db'.nextBlock = db.nextBlock) : SameExcept id db db' :=
  ⟨by rw [hb], hn, fun r _ => by rw [hb]⟩

theorem updateBlockStatus_sameExcept (db : Db) (status : BlockStatus) (id : Nat) :
    SameExcept id db (db.updateBlockStatus status id).1 := by
  refine ⟨updateBlockStatus_ids db status id, rfl, ?_⟩
  intro r hr
  constructor
  · intro hmem
    obtain ⟨r0, hr0, he⟩ := List.mem_map.mp hmem
    by_cases h0 : r0.id = id
    · rw [if_pos h0] at he
      exact absurd (he ▸ h0) hr
    · rw [if_neg h0] at he
      exact he ▸ hr0
  · intro hmem
    exact List.mem_map.mpr ⟨r, hmem, if_neg hr⟩

theorem matureRewards_blocks (db : Db) (id : Nat) (status : BlockStatus) :
    (db.matureRewards id status).1.blocks = db.blocks ∧
      (db.matureRewards id status).1.nextBlock = db.nextBlock := by
  unfold matureRewards
  split <;> exact ⟨rfl, rfl⟩

theorem addReward_blocks (db : Db) (minerId blockId amount : Nat) (effort : ℚ) :
    (db.addReward minerId blockId amount effort).1.blocks = db.blocks ∧
      (db.addReward minerId blockId amount effort).1.nextBlock = db.nextBlock := by
  unfold addReward insertReward creditImmature
  split
  · rename_i db1 heq
    split at heq
    · cases heq
      split <;> exact ⟨rfl, rfl⟩
    · cases heq
  · rename_i db1 heq
    split at heq
    · cases heq
    · cases heq
      exact ⟨rfl, rfl⟩

/-- What holds of the database and survives a statement survives its execution,
also when the server fails it. -/
theorem execute_db {P : Db → Prop} {sql : Sql} (up : Bool) (st : Db → Db × Bool)
    (h0 : P sql.db) (h1 : P (st sql.db).1) : P (sql.execute up st).1.db := by
  unfold Sql.execute
  cases up with
  | false => exact h0
  | true =>
    simp only [↓reduceIte]
    rcases hst : st sql.db with ⟨db, ok⟩
    rw [hst] at h1
    cases ok <;> exact h1

theorem addRoundRewards_blocks (up : Nat → Bool) (blockId : Nat)
    (entries : List (Nat × RoundReward Nat)) (sql : Sql) :
      (sql.addRoundRewards up blockId entries).1.db.blocks = sql.db.blocks ∧
      (sql.addRoundRewards up blockId entries).1.db.nextBlock = sql.db.nextBlock := by
  apply Sql.addRoundRewards_induction (P := fun s => s.db.blocks = sql.db.blocks ∧
    s.db.nextBlock = sql.db.nextBlock) _ up entries ⟨rfl, rfl⟩
  intro s up minerId reward h
  have hadd := addReward_blocks s.db minerId blockId reward.reward reward.effort
  exact execute_db (P := fun db => db.blocks = sql.db.blocks ∧ db.nextBlock = sql.db.nextBlock) up _
    h ⟨hadd.1.trans h.1, hadd.2.trans h.2⟩

/-! ## One iteration -/

theorem Watch.updateBlockStatus_sameExcept (w : Watch) (up : Bool) (id : Nat)
    (status : BlockStatus) :
    SameExcept id w.sql.db (w.updateBlockStatus up id status).sql.db :=
  execute_db (P := SameExcept id w.sql.db) _ _ (SameExcept.refl id _)
    (SickPool.Blocks.BlockWatcher.updateBlockStatus_sameExcept _ status id)

theorem Watch.updateImmatureRewards_blocks (w : Watch) (up : Bool) (id : Nat)
    (status : BlockStatus) :
    (w.updateImmatureRewards up id status).sql.db.blocks = w.sql.db.blocks ∧
      (w.updateImmatureRewards up id status).sql.db.nextBlock = w.sql.db.nextBlock :=
  execute_db (P := fun db => db.blocks = w.sql.db.blocks ∧ db.nextBlock = w.sql.db.nextBlock) _ _
    ⟨rfl, rfl⟩ (matureRewards_blocks _ id status)

/-- An iteration touches the row of its own submission only, and gives a status to
no other block. -/
theorem checkSubmission_sameExcept (confs : StaticConf) (pass : Pass) (i : Nat)
    (b : BlockOverview) (w : Watch) :
    SameExcept b.id w.sql.db (checkSubmission confs pass i b w).2.sql.db ∧
      ∀ v, v.1 ≠ b.id → (v ∈ (checkSubmission confs pass i b w).2.given ↔ v ∈ w.given) := by
  have hflag : ∀ header, SameExcept b.id w.sql.db (flagOrphaned pass i b header w).sql.db ∧
      ∀ v, v.1 ≠ b.id → (v ∈ (flagOrphaned pass i b header w).given ↔ v ∈ w.given) := by
    intro header
    unfold flagOrphaned
    split
    · refine ⟨w.updateBlockStatus_sameExcept _ _ _, ?_⟩
      rintro ⟨x, st⟩ hx
      simp only [Watch.updateBlockStatus, List.mem_append, List.mem_singleton, Prod.mk.injEq]
      simp_all
    · exact ⟨SameExcept.refl _ _, fun _ _ => Iff.rfl⟩
  unfold checkSubmission
  split
  · exact ⟨SameExcept.refl _ _, fun _ _ => Iff.rfl⟩
  · rename_i header _
    obtain ⟨hsame, hgiven⟩ := hflag header
    simp only
    split
    · obtain ⟨hb, hn⟩ := (flagOrphaned pass i b header w).updateImmatureRewards_blocks
        (pass.up i .matureRewards) b.id (settledStatus confs (confirmations b header))
      refine ⟨(hsame.trans (SameExcept.of_blocks hb hn)).trans
        (Watch.updateBlockStatus_sameExcept _ _ _ _), ?_⟩
      rintro ⟨x, st⟩ hx
      rw [← hgiven (x, st) hx]
      simp only [settle, Watch.updateBlockStatus, Watch.updateImmatureRewards, List.mem_append,
        List.mem_singleton, Prod.mk.injEq]
      simp_all
    · exact ⟨hsame, hgiven⟩

/-- A block of the main chain: its rows and its statuses so far. -/
structure Tracks (id height : Nat) (hash : Bytes) (w : Watch) : Prop where
  known : id < w.sql.db.nextBlock
  rows : ∀ r ∈ w.sql.db.blocks, r.id = id →
    r.height = height ∧ r.hash = hash ∧ (r.status = .PENDING ∨ r.status = .CONFIRMED)
  verdicts : ∀ v ∈ w.given, v.1 = id → v.2 = .CONFIRMED
  present : (∃ r ∈ w.sql.db.blocks, r.id = id ∧ r.status = .PENDING) ∨ (id, .CONFIRMED) ∈ w.given

def Copies (id height : Nat) (hash : Bytes) (bs : List BlockOverview) : Prop :=
  ∀ b ∈ bs, b.id = id → b.height = height ∧ b.hash = hash

theorem Tracks.of_sameExcept {id height other : Nat} {hash : Bytes} {w w' : Watch}
    (h : Tracks id height hash w) (hne : id ≠ other) (hdb : SameExcept other w.sql.db w'.sql.db)
    (hgiven : ∀ v : Nat × BlockStatus, v.1 ≠ other → (v ∈ w'.given ↔ v ∈ w.given)) :
    Tracks id height hash w' := by
  refine ⟨by rw [hdb.next]; exact h.known, ?_, ?_, ?_⟩
  · intro r hr hid
    exact h.rows r ((hdb.others r (hid ▸ hne)).mp hr) hid
  · intro v hv hid
    exact h.verdicts v ((hgiven v (hid ▸ hne)).mp hv) hid
  · rcases h.present with ⟨r, hr, hid, hst⟩ | hg
    · exact .inl ⟨r, (hdb.others r (hid ▸ hne)).mpr hr, hid, hst⟩
    · exact .inr ((hgiven _ hne).mpr hg)

/-- The block is confirmed when a pass that may settle it does. -/
theorem settle_tracks {id height : Nat} {hash : Bytes} {w : Watch} (pass : Pass) (i : Nat)
    {b : BlockOverview} (h : Tracks id height hash w) (hid : b.id = id) :
    Tracks id height hash (settle pass i b .CONFIRMED w) ∧
      (id, .CONFIRMED) ∈ (settle pass i b .CONFIRMED w).given := by
  obtain ⟨hblocks, hnext⟩ := w.updateImmatureRewards_blocks (pass.up i .matureRewards) b.id .CONFIRMED
  have hmem : (id, BlockStatus.CONFIRMED) ∈ (settle pass i b .CONFIRMED w).given := by
    simp [settle, Watch.updateBlockStatus, hid]
  refine ⟨⟨?_, ?_, ?_, .inr hmem⟩, hmem⟩
  · exact execute_db (P := fun db => id < db.nextBlock) _ _ (hnext ▸ h.known) (hnext ▸ h.known)
  · -- the update is done or fails; the row is an old one or an old one confirmed
    refine execute_db (P := fun db => ∀ r ∈ db.blocks, r.id = id → r.height = height ∧
      r.hash = hash ∧ (r.status = .PENDING ∨ r.status = .CONFIRMED)) _ _ (hblocks ▸ h.rows) ?_
    intro r hr hrid
    obtain ⟨r0, hr0, rfl⟩ := List.mem_map.mp hr
    rw [hblocks] at hr0
    by_cases h0 : r0.id = b.id
    · simp only [h0, ↓reduceIte] at hrid ⊢
      obtain ⟨hh, hx, -⟩ := h.rows r0 hr0 (h0.trans hid)
      exact ⟨hh, hx, .inr trivial⟩
    · simp only [h0, ↓reduceIte] at hrid ⊢
      exact h.rows r0 hr0 hrid
  · intro v hv hvid
    simp only [settle, Watch.updateBlockStatus, Watch.updateImmatureRewards, List.mem_append,
      List.mem_singleton] at hv
    rcases hv with hv | rfl
    · exact h.verdicts v hv hvid
    · rfl

theorem settledStatus_of_reports {confs : StaticConf} {pass : Pass} {tip height : Nat}
    {hash : Bytes} {b : BlockOverview} (hrep : Reports pass tip height hash)
    (hclear : pass.currentHeight ≠ height + confs.COINBASE_MATURITY + 1 ∧
      height + confs.COINBASE_MATURITY < uint32Size ∧ pass.currentHeight ≤ height + 2 ^ 31)
    (hh : b.height = height) (hx : b.hash = hash) :
    (matures confs pass.currentHeight b ↔
        height + confs.COINBASE_MATURITY < pass.currentHeight) ∧
      (matures confs pass.currentHeight b →
        settledStatus confs (confirmations b ⟨tip - height, hash⟩) = .CONFIRMED) := by
  obtain ⟨hne, hsum, hdepth⟩ := hclear
  have hstored := hrep.stored
  have hmined := hrep.mined
  have hm : matures confs pass.currentHeight b ↔
      height + confs.COINBASE_MATURITY < pass.currentHeight := by
    rw [matures, hh, Nat.mod_eq_of_lt hsum]
  refine ⟨hm, ?_⟩
  intro hmat
  have hlt := hm.mp hmat
  have hint : toInt (tip - height) = ((tip - height : Nat) : Int) := by
    rw [toInt, if_pos (by omega)]
  rw [confirmations, if_pos hx, settledStatus, hint, if_pos]
  omega

theorem checkSubmission_tracks {confs : StaticConf} {pass : Pass} {tip id height i : Nat}
    {hash : Bytes} {b : BlockOverview} {w : Watch} (h : Tracks id height hash w)
    (hrep : Reports pass tip height hash) (hcopy : b.id = id → b.height = height ∧ b.hash = hash)
    (hclear : b.id = id → pass.currentHeight ≠ height + confs.COINBASE_MATURITY + 1 ∧
      height + confs.COINBASE_MATURITY < uint32Size ∧ pass.currentHeight ≤ height + 2 ^ 31) :
    Tracks id height hash (checkSubmission confs pass i b w).2 ∧
      ((id, .CONFIRMED) ∈ (checkSubmission confs pass i b w).2.given ↔
        (id, .CONFIRMED) ∈ w.given ∨
          (b.id = id ∧ height + confs.COINBASE_MATURITY < pass.currentHeight)) := by
  by_cases hid : b.id = id
  · obtain ⟨hh, hx⟩ := hcopy hid
    obtain ⟨hm, hst⟩ := settledStatus_of_reports hrep (hclear hid) hh hx
    have hflag : flagOrphaned pass i b ⟨tip - height, hash⟩ w = w := by
      rw [flagOrphaned, if_neg]
      exact fun hc => hc.1 hx
    have hhead : pass.header i b.height = some ⟨tip - height, hash⟩ := by
      rw [hh]
      exact hrep.depth i
    simp only [checkSubmission, hhead, hflag]
    by_cases hmat : matures confs pass.currentHeight b
    · obtain ⟨ht, hmem⟩ := settle_tracks pass i h hid
      rw [if_pos hmat, hst hmat]
      exact ⟨ht, iff_of_true hmem (.inr ⟨hid, hm.mp hmat⟩)⟩
    · rw [if_neg hmat]
      refine ⟨h, (or_iff_left ?_).symm⟩
      exact fun hc => hmat (hm.mpr hc.2)
  · obtain ⟨hdb, hgiven⟩ := checkSubmission_sameExcept confs pass i b w
    have hne : id ≠ b.id := fun he => hid he.symm
    refine ⟨h.of_sameExcept hne hdb hgiven, ?_⟩
    rw [hgiven _ hne]
    exact (or_iff_left (fun hc => hid hc.1)).symm

/-! ## One pass -/

theorem checkLoop_tracks {confs : StaticConf} {pass : Pass} {tip id height : Nat} {hash : Bytes}
    (hrep : Reports pass tip height hash) (bs : List BlockOverview) :
    ∀ {i : Nat} {w : Watch}, Tracks id height hash w → Copies id height hash bs →
      (id ∈ bs.map (·.id) → pass.currentHeight ≠ height + confs.COINBASE_MATURITY + 1 ∧
        height + confs.COINBASE_MATURITY < uint32Size ∧ pass.currentHeight ≤ height + 2 ^ 31) →
      Tracks id height hash (checkLoop confs pass i bs w).2 ∧
      ((id, .CONFIRMED) ∈ (checkLoop confs pass i bs w).2.given ↔ (id, .CONFIRMED) ∈ w.given ∨
        (id ∈ bs.map (·.id) ∧ height + confs.COINBASE_MATURITY < pass.currentHeight)) := by
  induction bs with
  | nil => exact fun h _ _ => ⟨h, by simp [checkLoop]⟩
  | cons b bs ih =>
    intro i w h hcopy hclear
    obtain ⟨h1, hg1⟩ := checkSubmission_tracks (i := i) h hrep (hcopy b (by simp))
      (fun hid => hclear (by simp [hid]))
    obtain ⟨h2, hg2⟩ := ih (i := i + 1) h1 (fun c hc => hcopy c (by simp [hc]))
      (fun hid => hclear (by simp only [List.map_cons, List.mem_cons, hid, or_true]))
    refine ⟨h2, ?_⟩
    simp only [checkLoop, List.map_cons, List.mem_cons]
    rw [hg2, hg1, eq_comm (a := id), or_assoc, ← or_and_right]

theorem checkLoop_ids (confs : StaticConf) (pass : Pass) (bs : List BlockOverview) :
    ∀ (i : Nat) (w : Watch),
      (checkLoop confs pass i bs w).2.sql.db.blocks.map (·.id) = w.sql.db.blocks.map (·.id) ∧
      (checkLoop confs pass i bs w).2.sql.db.nextBlock = w.sql.db.nextBlock ∧
      ∀ v ∈ (checkLoop confs pass i bs w).2.given, v ∈ w.given ∨ v.1 ∈ bs.map (·.id) := by
  induction bs with
  | nil => exact fun _ _ => ⟨rfl, rfl, fun v hv => .inl hv⟩
  | cons b bs ih =>
    intro i w
    obtain ⟨hdb, hgiven⟩ := checkSubmission_sameExcept confs pass i b w
    obtain ⟨hids, hnext, hg⟩ := ih (i + 1) (checkSubmission confs pass i b w).2
    refine ⟨hids.trans hdb.ids, hnext.trans hdb.next, ?_⟩
    intro v hv
    by_cases hb : v.1 = b.id
    · exact .inr (by simp [hb])
    · rcases hg v hv with hv | hv
      · exact .inl ((hgiven v hb).mp hv)
      · exact .inr (by simp only [List.map_cons, List.mem_cons, hv, or_true])

theorem checkImmatureSubmissions_kept (confs : StaticConf) (pass : Pass) (w : Watch) :
    ∀ b ∈ (checkImmatureSubmissions confs pass w).immatureBlockSubmissions,
      b ∈ pendingSubmissions w := by
  intro b hb
  exact (checkLoop_kept confs pass (pendingSubmissions w) 0 w).subset (List.mem_append_left _ hb)

/-! ## Whole runs -/

structure Numbered (w : Watch) : Prop where
  rows : ∀ r ∈ w.sql.db.blocks, r.id < w.sql.db.nextBlock
  copies : ∀ b ∈ w.immatureBlockSubmissions, b.id < w.sql.db.nextBlock
  verdicts : ∀ v ∈ w.given, v.1 < w.sql.db.nextBlock

theorem mem_pendingSubmissions {w : Watch} {b : BlockOverview} (h : b ∈ pendingSubmissions w) :
    b ∈ w.immatureBlockSubmissions ∨
      ∃ r ∈ w.sql.db.blocks, b.id = r.id ∧ b.height = r.height ∧ b.hash = r.hash := by
  rcases List.mem_append.mp h with hb | hb
  · exact .inl hb
  · obtain ⟨r, hr, rfl⟩ := List.mem_map.mp hb
    exact .inr ⟨r, (List.mem_filter.mp hr).1, rfl, rfl, rfl⟩

/-- The blocks are the same, or there is one more row under a new id. -/
def Grown (db db' : Db) : Prop :=
  (db'.blocks = db.blocks ∧ db'.nextBlock = db.nextBlock) ∨
    ∃ row : BlockRow, row.id = db.nextBlock ∧ db'.blocks = db.blocks ++ [row] ∧
      db'.nextBlock = db.nextBlock + 1

theorem Grown.rfl {db : Db} : Grown db db := .inl ⟨Eq.refl _, Eq.refl _⟩

theorem Grown.le {db db' : Db} (h : Grown db db') : db.nextBlock ≤ db'.nextBlock := by
  rcases h with ⟨-, h⟩ | ⟨-, -, -, h⟩ <;> omega

theorem Grown.rows {db db' : Db} (h : Grown db db') {r : BlockRow} (hr : r ∈ db'.blocks) :
    r ∈ db.blocks ∨ (r.id = db.nextBlock ∧ db'.nextBlock = db.nextBlock + 1) := by
  rcases h with ⟨hb, -⟩ | ⟨row, hid, hb, hn⟩
  · exact .inl (hb ▸ hr)
  · rw [hb] at hr
    rcases List.mem_append.mp hr with hr | hr
    · exact .inl hr
    · rw [List.mem_singleton] at hr
      exact .inr ⟨hr ▸ hid, hn⟩

theorem Grown.mem {db db' : Db} (h : Grown db db') {r : BlockRow} (hr : r ∈ db.blocks) :
    r ∈ db'.blocks := by
  rcases h with ⟨hb, -⟩ | ⟨row, -, hb, -⟩ <;> simp [hb, hr]

/-- A step that is not a pass leaves the watcher alone and adds at most one block. -/
theorem step_grown (confs : StaticConf) (w : Watch) {e : Event} (he : ∀ pass, e ≠ .pass pass) :
    (step confs w e).immatureBlockSubmissions = w.immatureBlockSubmissions ∧
      (step confs w e).given = w.given ∧ Grown w.sql.db (step confs w e).sql.db := by
  cases e with
  | addMiner address ali minPayout joinTime =>
    refine ⟨rfl, rfl, execute_db (P := Grown w.sql.db) _ _ Grown.rfl ?_⟩
    unfold addMiner
    split <;> exact Grown.rfl
  | addWorker minerId name joinTime =>
    refine ⟨rfl, rfl, execute_db (P := Grown w.sql.db) _ _ Grown.rfl ?_⟩
    unfold addWorker
    split <;> exact Grown.rfl
  | newBlock submission shares =>
    refine ⟨rfl, rfl, ?_⟩
    have hgrown : Grown w.sql.db
        (w.sql.execute true (Sql.addBlockStatement submission)).1.db := by
      refine execute_db (P := Grown w.sql.db) _ _ Grown.rfl ?_
      unfold Sql.addBlockStatement addBlock
      split
      · split
        · exact .inr ⟨_, rfl, rfl, rfl⟩
        · exact Grown.rfl
      · exact Grown.rfl
    obtain ⟨hb, hn⟩ := addRoundRewards_blocks (fun _ => true)
      (w.sql.execute true (Sql.addBlockStatement submission)).1.db.lastInsertId shares.entries
      (w.sql.execute true (Sql.addBlockStatement submission)).1
    simp only [step, newBlock_eq, Grown, hb, hn]
    exact hgrown
  | pass pass => exact absurd rfl (he pass)

theorem numbered_step (confs : StaticConf) {w : Watch} (h : Numbered w) (e : Event) :
    Numbered (step confs w e) := by
  by_cases he : ∀ pass, e ≠ .pass pass
  · obtain ⟨hvec, hgiven, hgrown⟩ := step_grown confs w he
    refine ⟨?_, ?_, ?_⟩
    · intro r hr
      rcases hgrown.rows hr with hr | ⟨hid, hn⟩
      · exact (h.rows r hr).trans_le hgrown.le
      · omega
    · rw [hvec]
      exact fun b hb => (h.copies b hb).trans_le hgrown.le
    · rw [hgiven]
      exact fun v hv => (h.verdicts v hv).trans_le hgrown.le
  · obtain ⟨pass, rfl⟩ : ∃ pass, e = .pass pass := by simpa using he
    have hpend : ∀ b ∈ pendingSubmissions w, b.id < w.sql.db.nextBlock := by
      intro b hb
      rcases mem_pendingSubmissions hb with hb | ⟨r, hr, hid, -, -⟩
      · exact h.copies b hb
      · exact hid ▸ h.rows r hr
    obtain ⟨hids, hnext, hgiven⟩ := checkLoop_ids confs pass (pendingSubmissions w) 0 w
    change Numbered (checkImmatureSubmissions confs pass w)
    have hnext' : (checkImmatureSubmissions confs pass w).sql.db.nextBlock =
      w.sql.db.nextBlock := hnext
    refine ⟨?_, ?_, ?_⟩
    · intro r hr
      have hmem : r.id ∈ w.sql.db.blocks.map (·.id) := hids ▸ List.mem_map_of_mem hr
      obtain ⟨r0, hr0, he0⟩ := List.mem_map.mp hmem
      rw [hnext', ← he0]
      exact h.rows r0 hr0
    · intro b hb
      rw [hnext']
      exact hpend b (checkImmatureSubmissions_kept confs pass w b hb)
    · intro v hv
      rw [hnext']
      rcases hgiven v hv with hv | hv
      · exact h.verdicts v hv
      · obtain ⟨b, hb, hid⟩ := List.mem_map.mp hv
        exact hid ▸ hpend b hb

theorem numbered_run (confs : StaticConf) (events : List Event) :
    Numbered (run (step confs) init events) := by
  have h0 : Numbered init := ⟨by simp [init, Db.empty], by simp [init], by simp [init]⟩
  exact Run.invariant (I := Numbered) (fun w e h _ => numbered_step confs h e) h0
    (Run.guarded_true (step confs) init events)

/-- The block between steps: tracked, with copies of its row in the vector. -/
structure Followed (id height : Nat) (hash : Bytes) (w : Watch) : Prop where
  tracks : Tracks id height hash w
  copies : Copies id height hash w.immatureBlockSubmissions

theorem Followed.copies_pending {id height : Nat} {hash : Bytes} {w : Watch}
    (h : Followed id height hash w) : Copies id height hash (pendingSubmissions w) := by
  intro b hb hid
  rcases mem_pendingSubmissions hb with hb | ⟨r, hr, hri, hrh, hrx⟩
  · exact h.copies b hb hid
  · obtain ⟨hh, hx, -⟩ := h.tracks.rows r hr (hri.symm.trans hid)
    exact ⟨hrh.trans hh, hrx.trans hx⟩

/-- A block that is not loaded is one that was confirmed before. -/
theorem Followed.confirmed_or_pending {id height : Nat} {hash : Bytes} {w : Watch}
    (h : Followed id height hash w) :
    (id, .CONFIRMED) ∈ w.given ∨ id ∈ (pendingSubmissions w).map (·.id) := by
  rcases h.tracks.present with ⟨r, hr, hid, hst⟩ | hgiven
  · refine .inr (List.mem_map.mpr ⟨⟨r.id, r.height, r.status, r.hash⟩, ?_, hid⟩)
    refine List.mem_append_right _ (List.mem_map.mpr ⟨r, ?_, rfl⟩)
    exact List.mem_filter.mpr ⟨hr, by rw [hst]; rfl⟩
  · exact .inl hgiven

/-- A step that only adds rows. -/
theorem Followed.grown {id height : Nat} {hash : Bytes} {w w' : Watch}
    (h : Followed id height hash w) (hvec : w'.immatureBlockSubmissions = w.immatureBlockSubmissions)
    (hgiven : w'.given = w.given) (hgrown : Grown w.sql.db w'.sql.db) :
    Followed id height hash w' := by
  refine ⟨⟨h.tracks.known.trans_le hgrown.le, ?_, ?_, ?_⟩, ?_⟩
  · intro r hr hid
    rcases hgrown.rows hr with hr | ⟨hnew, -⟩
    · exact h.tracks.rows r hr hid
    · have hknown := h.tracks.known
      omega
  · rw [hgiven]
    exact h.tracks.verdicts
  · rw [hgiven]
    exact h.tracks.present.imp_left (fun ⟨r, hr, hrest⟩ => ⟨r, hgrown.mem hr, hrest⟩)
  · rw [hvec]
    exact h.copies

theorem step_followed {confs : StaticConf} {id height : Nat} {hash : Bytes} {w : Watch} {e : Event}
    (h : Followed id height hash w)
    (hrep : ∀ pass, e = .pass pass → ∃ tip, Reports pass tip height hash)
    (hclear : ClearOfMaturity confs id height w e) :
    Followed id height hash (step confs w e) ∧
      ((id, .CONFIRMED) ∈ (step confs w e).given ↔ (id, .CONFIRMED) ∈ w.given ∨
        ∃ pass, e = .pass pass ∧ height + confs.COINBASE_MATURITY < pass.currentHeight) := by
  by_cases he : ∀ pass, e ≠ .pass pass
  · obtain ⟨hvec, hgiven, hgrown⟩ := step_grown confs w he
    refine ⟨h.grown hvec hgiven hgrown, ?_⟩
    rw [hgiven]
    exact (or_iff_left (fun ⟨pass, hp, _⟩ => he pass hp)).symm
  · obtain ⟨pass, rfl⟩ : ∃ pass, e = .pass pass := by simpa using he
    obtain ⟨tip, hr⟩ := hrep pass rfl
    have hcopies := h.copies_pending
    obtain ⟨ht, hg⟩ := checkLoop_tracks (i := 0) hr (pendingSubmissions w) h.tracks hcopies hclear
    refine ⟨⟨⟨ht.known, ht.rows, ht.verdicts, ht.present⟩, ?_⟩, ?_⟩
    · intro b hb
      exact hcopies b (checkImmatureSubmissions_kept confs pass w b hb)
    · change (id, .CONFIRMED) ∈ (checkLoop confs pass 0 (pendingSubmissions w) w).2.given ↔ _
      rw [hg]
      simp only [Event.pass.injEq, exists_eq_left']
      rcases h.confirmed_or_pending with hgiven | hmem
      · simp only [hgiven, true_or]
      · rw [and_iff_right hmem]

theorem run_followed {confs : StaticConf} {id height : Nat} {hash : Bytes} (events : List Event) :
    ∀ {w : Watch}, Followed id height hash w →
      (∀ pass, Event.pass pass ∈ events → ∃ tip, Reports pass tip height hash) →
      Guarded (step confs) (ClearOfMaturity confs id height) w events →
      Followed id height hash (run (step confs) w events) ∧
      ((id, .CONFIRMED) ∈ (run (step confs) w events).given ↔ (id, .CONFIRMED) ∈ w.given ∨
        ∃ pass, Event.pass pass ∈ events ∧
          height + confs.COINBASE_MATURITY < pass.currentHeight) := by
  induction events with
  | nil => exact fun h _ _ => ⟨h, by simp⟩
  | cons e events ih =>
    intro w h hrep hclear
    obtain ⟨h1, hg1⟩ := step_followed h (fun pass hp => hrep pass (by simp [hp])) hclear.1
    obtain ⟨h2, hg2⟩ := ih h1 (fun pass hp => hrep pass (by simp [hp])) hclear.2
    refine ⟨h2, ?_⟩
    rw [Run.run_cons, hg2, hg1, or_assoc, ← exists_or]
    simp only [List.mem_cons, or_and_right, eq_comm]

theorem newBlock_followed (confs : StaticConf) {w : Watch} (h : Numbered w)
    (submission : BlockSubmission) (shares : RoundShares)
    (hadd : (w.sql.execute true (Sql.addBlockStatement submission)).2 = true) :
    Followed w.sql.db.nextBlock submission.height (Utils.hexlify submission.hashBin.toList)
      (step confs w (.newBlock submission shares)) ∧
    (w.sql.db.nextBlock, .CONFIRMED) ∉ (step confs w (.newBlock submission shares)).given := by
  obtain ⟨_, _, hins⟩ := addBlockStatement_inv (Sql.execute_of_ok hadd)
  obtain ⟨row, hid, hst, hheight, hhash, hb, -, -, hn, -⟩ := addBlock_inv hins
  obtain ⟨hb', hn'⟩ := addRoundRewards_blocks (fun _ => true)
    (w.sql.execute true (Sql.addBlockStatement submission)).1.db.lastInsertId shares.entries
    (w.sql.execute true (Sql.addBlockStatement submission)).1
  have hblocks : (step confs w (.newBlock submission shares)).sql.db.blocks =
      w.sql.db.blocks ++ [row] := hb'.trans hb
  have hnext : (step confs w (.newBlock submission shares)).sql.db.nextBlock =
      w.sql.db.nextBlock + 1 := hn'.trans hn
  have hnew : ∀ v ∈ w.given, v.1 ≠ w.sql.db.nextBlock := fun v hv => (h.verdicts v hv).ne
  refine ⟨⟨⟨?_, ?_, ?_, ?_⟩, ?_⟩, ?_⟩
  · rw [hnext]
    exact Nat.lt_succ_self _
  · intro r hr hrid
    rw [hblocks] at hr
    rcases List.mem_append.mp hr with hr | hr
    · exact absurd hrid (h.rows r hr).ne
    · rw [List.mem_singleton] at hr
      subst hr
      exact ⟨hheight, hhash, .inl hst⟩
  · exact fun v hv hv1 => absurd hv1 (hnew v hv)
  · exact .inl ⟨row, by simp [hblocks], hid, hst⟩
  · exact fun b hb hbid => absurd hbid (h.copies b hb).ne
  · exact fun hv => hnew _ hv rfl

/-- **A block on the main chain is confirmed.** Take any run to the point where a
block is found and its row inserted, and any run of passes, of failing or succeeding
statements, and of other blocks from there on, with the daemon holding that block in
every pass. If no pass that works on the block is made with the tip exactly
`COINBASE_MATURITY` above it, the block is never given a status other than
`CONFIRMED`, it has been given `CONFIRMED` exactly when some pass had a stored height
above `height + COINBASE_MATURITY`, and its row is pending or confirmed. -/
theorem main_chain_block_confirmed (confs : StaticConf) (before events : List Event)
    (submission : BlockSubmission) (shares : RoundShares)
    (hadd : ((run (step confs) init before).sql.execute true
      (Sql.addBlockStatement submission)).2 = true)
    (hdaemon : ∀ pass, Event.pass pass ∈ events →
      ∃ tip, Reports pass tip submission.height (Utils.hexlify submission.hashBin.toList))
    (hclear : Guarded (step confs)
      (ClearOfMaturity confs (run (step confs) init before).sql.db.nextBlock submission.height)
      (step confs (run (step confs) init before) (.newBlock submission shares)) events) :
    (∀ v ∈ (run (step confs) init (before ++ .newBlock submission shares :: events)).given,
        v.1 = (run (step confs) init before).sql.db.nextBlock → v.2 = .CONFIRMED) ∧
      (((run (step confs) init before).sql.db.nextBlock, .CONFIRMED) ∈
          (run (step confs) init (before ++ .newBlock submission shares :: events)).given ↔
        ∃ pass, Event.pass pass ∈ events ∧
          submission.height + confs.COINBASE_MATURITY < pass.currentHeight) ∧
      ∀ r ∈ (run (step confs) init
          (before ++ .newBlock submission shares :: events)).sql.db.blocks,
        r.id = (run (step confs) init before).sql.db.nextBlock →
          r.status = .PENDING ∨ r.status = .CONFIRMED := by
  rw [Run.run_append, Run.run_cons]
  obtain ⟨hstart, hnone⟩ := newBlock_followed confs (numbered_run confs before) submission shares hadd
  obtain ⟨hend, hgiven⟩ := run_followed events hstart hdaemon hclear
  refine ⟨hend.tracks.verdicts, ?_, fun r hr hid => (hend.tracks.rows r hr hid).2.2⟩
  rw [hgiven]
  exact or_iff_right hnone

def oneMiner : List Event :=
  [.addMiner (Bytes.ascii "Zx") none 0 0, .addWorker 1 (Bytes.ascii "w") 0]

/-- A pass one block later than the one that orphans the block confirms it. -/
theorem main_chain_block_confirmed_late :
    ((run (step zanoStatic) init oneMiner).sql.db.nextBlock, .CONFIRMED) ∈
      (run (step zanoStatic) init (oneMiner ++ .newBlock (sampleBlock 100) sampleShares ::
        [.pass (healthyPass 110 109 sampleHash), .pass (healthyPass 112 111 sampleHash)])).given :=
  ((main_chain_block_confirmed zanoStatic oneMiner
    [.pass (healthyPass 110 109 sampleHash), .pass (healthyPass 112 111 sampleHash)]
    (sampleBlock 100) sampleShares (by decide +kernel)
    (by
      intro pass hpass
      simp only [List.mem_cons, Event.pass.injEq, List.not_mem_nil, or_false] at hpass
      rcases hpass with rfl | rfl
      · exact ⟨109, rfl, by decide, by decide, fun _ => rfl⟩
      · exact ⟨111, rfl, by decide, by decide, fun _ => rfl⟩)
    (by decide +kernel)).2.1).mpr
    ⟨healthyPass 112 111 sampleHash, by simp, by decide⟩

/-- With the tip at 110 the daemon reports the block at height 100 with its own hash
and depth 10; the pass is the first whose stored height exceeds 110, and it gives the
block the status `ORPHANED`. -/
theorem main_chain_block_orphaned :
    Reports (healthyPass 111 110 sampleHash) 110 100 sampleHash ∧
      sampleHash = Utils.hexlify (sampleBlock 100).hashBin.toList ∧
      100 + zanoStatic.COINBASE_MATURITY < (healthyPass 111 110 sampleHash).currentHeight ∧
      (run (step zanoStatic) init (oneMiner ++ [.newBlock (sampleBlock 100) sampleShares,
        .pass (healthyPass 111 110 sampleHash)])).given = [(1, .ORPHANED)] :=
  ⟨⟨rfl, by decide, by decide, fun _ => rfl⟩, rfl, by decide, by decide +kernel⟩

end SickPool.Blocks.BlockWatcher
