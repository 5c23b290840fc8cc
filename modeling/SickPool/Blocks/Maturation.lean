import SickPool.Blocks.BlockWatcher
import SickPool.Persistence.Ledger
import Mathlib.Data.List.Count

/-!
# Reward maturation over whole runs

The member vector is never cleared, and every pass appends the rows that are still
immature to it. A block that a pass looks at and leaves pending is therefore in the
vector once more after every further load, and is matured once per copy. The results
below say what holds when every pass settles only submissions that occur once in
the vector it works on: rewards mature at most once, and both balances of every miner
are the totals of the rewards table.
-/
namespace SickPool.Blocks.BlockWatcher

open SickPool.Library SickPool.Persistence SickPool.Persistence.Db
open SickPool.Payouts (RoundReward)
open SickPool.Library.Run (run Guarded)

/-- The request of iteration `i` is answered and the submission is mature, so the
iteration settles it. -/
def SettlesAt (confs : StaticConf) (pass : Pass) (i : Nat) (b : BlockOverview) : Prop :=
  (pass.header i b.height).isSome ∧ matures confs pass.currentHeight b

instance (confs : StaticConf) (pass : Pass) (i : Nat) (b : BlockOverview) :
    Decidable (SettlesAt confs pass i b) := inferInstanceAs (Decidable (_ ∧ _))

/-- The submissions of a vector that the loop settles from index `i` on. -/
def settledFrom (confs : StaticConf) (pass : Pass) : Nat → List BlockOverview → List BlockOverview
  | _, [] => []
  | i, b :: bs =>
    if SettlesAt confs pass i b then b :: settledFrom confs pass (i + 1) bs
    else settledFrom confs pass (i + 1) bs

/-- Every submission a pass settles has one copy in the vector the pass works on. -/
def SettlesOnce (confs : StaticConf) (pass : Pass) (w : Watch) : Prop :=
  ∀ b ∈ settledFrom confs pass 0 (pendingSubmissions w),
    ((pendingSubmissions w).map (·.id)).count b.id = 1

/-- The side condition of a step: other steps than passes are free. -/
def StepSettlesOnce (confs : StaticConf) (w : Watch) : Event → Prop
  | .pass pass => SettlesOnce confs pass w
  | _ => True

instance (confs : StaticConf) (w : Watch) : ∀ e : Event, Decidable (StepSettlesOnce confs w e)
  | .pass pass => inferInstanceAs (Decidable (∀ b ∈ settledFrom confs pass 0 _, _))
  | .addMiner .. | .addWorker .. | .newBlock .. => inferInstanceAs (Decidable True)

/-- A block is still to be settled. -/
def Waiting (db : Db) (id : Nat) : Prop := (db.statusOf id).any BlockStatus.immature = true

theorem Waiting.status {db : Db} {id : Nat} (h : Waiting db id) :
    ∃ st, db.statusOf id = some st ∧ st.immature = true := by
  unfold Waiting at h
  cases hs : db.statusOf id with
  | none => simp [hs] at h
  | some st => exact ⟨st, rfl, by simpa [hs] using h⟩

/-! ## Logged errors only grow -/

theorem flagOrphaned_errs (pass : Pass) (i : Nat) (b : BlockOverview) (header : BlockHeaderRes)
    (w : Watch) : w.sql.errs ≤ (flagOrphaned pass i b header w).sql.errs := by
  unfold flagOrphaned
  split
  · exact Sql.execute_errs _ _ _
  · exact Nat.le_refl _

theorem settle_errs (pass : Pass) (i : Nat) (b : BlockOverview) (status : BlockStatus) (w : Watch) :
    w.sql.errs ≤ (settle pass i b status w).sql.errs :=
  (Sql.execute_errs w.sql (pass.up i .matureRewards) (·.matureRewards b.id status)).trans
    (Sql.execute_errs _ (pass.up i .settle) (·.updateBlockStatus status b.id))

theorem checkSubmission_errs (confs : StaticConf) (pass : Pass) (i : Nat) (b : BlockOverview)
    (w : Watch) : w.sql.errs ≤ (checkSubmission confs pass i b w).2.sql.errs := by
  unfold checkSubmission
  split
  · exact Nat.le_refl _
  · rename_i header _
    have hf := flagOrphaned_errs pass i b header w
    simp only
    split
    · exact hf.trans (settle_errs _ _ _ _ _)
    · exact hf

theorem checkLoop_errs (confs : StaticConf) (pass : Pass) (bs : List BlockOverview) :
    ∀ (i : Nat) (w : Watch), w.sql.errs ≤ (checkLoop confs pass i bs w).2.sql.errs := by
  induction bs with
  | nil => exact fun _ _ => Nat.le_refl _
  | cons b bs ih =>
    intro i w
    exact (checkSubmission_errs confs pass i b w).trans (ih (i + 1) _)

/-! ## One iteration -/

theorem flagOrphaned_spec {pass : Pass} {i : Nat} {b : BlockOverview} {header : BlockHeaderRes}
    {w : Watch} (hc : Consistent w.sql.db) (hw : Waiting w.sql.db b.id)
    (herr : (flagOrphaned pass i b header w).sql.errs = 0) :
    w.sql.errs = 0 ∧ Consistent (flagOrphaned pass i b header w).sql.db ∧
      (flagOrphaned pass i b header w).matured = w.matured ∧
      (∀ x, Waiting (flagOrphaned pass i b header w).sql.db x ↔ Waiting w.sql.db x) ∧
      (flagOrphaned pass i b header w).sql.db.nextBlock = w.sql.db.nextBlock := by
  obtain ⟨st, hst, himm⟩ := hw.status
  unfold flagOrphaned at herr ⊢
  split
  · rename_i hcond
    rw [if_pos hcond] at herr
    obtain ⟨h0, -, hex⟩ := Sql.execute_of_errs herr
    simp only [Watch.updateBlockStatus, Sql.updateBlockStatus, hex]
    refine ⟨h0, flag_consistent hc hst himm, trivial, ?_, rfl⟩
    intro x
    unfold Waiting
    rw [statusOf_updateBlockStatus]
    by_cases hx : x = b.id
    · have hflag : BlockStatus.PENDING_ORPHANED.immature = true := rfl
      rw [if_pos hx, hx, hst]
      simp [himm, hflag]
    · rw [if_neg hx]
  · rename_i hcond
    rw [if_neg hcond] at herr
    exact ⟨herr, hc, rfl, fun _ => Iff.rfl, rfl⟩

theorem settle_spec {pass : Pass} {i : Nat} {b : BlockOverview} {status : BlockStatus} {w : Watch}
    (hc : Consistent w.sql.db) (hw : Waiting w.sql.db b.id)
    (hset : status = .CONFIRMED ∨ status = .ORPHANED)
    (herr : (settle pass i b status w).sql.errs = 0) :
    w.sql.errs = 0 ∧ Consistent (settle pass i b status w).sql.db ∧
      (settle pass i b status w).matured = w.matured ++ [(b.id, status)] ∧
      (∀ x, Waiting (settle pass i b status w).sql.db x ↔ Waiting w.sql.db x ∧ x ≠ b.id) ∧
      (settle pass i b status w).sql.db.nextBlock = w.sql.db.nextBlock := by
  obtain ⟨st, hst, himm⟩ := hw.status
  unfold settle at herr ⊢
  simp only [Watch.updateBlockStatus, Sql.updateBlockStatus] at herr ⊢
  obtain ⟨h1, -, hex1⟩ := Sql.execute_of_errs herr
  simp only [Watch.updateImmatureRewards, Sql.updateImmatureRewards] at h1 hex1 herr ⊢
  obtain ⟨h0, hok, hex0⟩ := Sql.execute_of_errs h1
  have hmr : w.sql.db.matureRewards b.id status =
      ((w.sql.db.matureRewards b.id status).1, true) := by rw [← hok]
  obtain ⟨-, -, -, hblocks, hnb, -⟩ := matureRewards_inv hmr
  simp only [hex0] at hex1
  simp only [hex0, hex1, ↓reduceIte]
  refine ⟨h0, settle_consistent hc hst himm hset hmr, trivial, ?_, hnb⟩
  intro x
  unfold Waiting
  rw [statusOf_updateBlockStatus]
  have hsame : (w.sql.db.matureRewards b.id status).1.statusOf x = w.sql.db.statusOf x := by
    rw [statusOf, statusOf, hblocks]
  rw [hsame]
  by_cases hx : x = b.id
  · rw [if_pos hx, hx, hst]
    rcases hset with rfl | rfl <;> simp [BlockStatus.immature]
  · simp [hx]

theorem settledStatus_cases (confs : StaticConf) (conf : Int) :
    settledStatus confs conf = .CONFIRMED ∨ settledStatus confs conf = .ORPHANED := by
  unfold settledStatus
  split <;> simp

theorem checkSubmission_stays (confs : StaticConf) (pass : Pass) (i : Nat) (b : BlockOverview)
    (w : Watch) : (checkSubmission confs pass i b w).1 = true ↔ ¬ SettlesAt confs pass i b := by
  unfold checkSubmission SettlesAt
  split
  · rename_i hh
    simp [hh]
  · rename_i header hh
    simp only
    split <;> simp_all

/-- What one iteration without a database error does: it matures the block exactly when
it settles it. -/
theorem checkSubmission_spec {confs : StaticConf} {pass : Pass} {i : Nat} {b : BlockOverview}
    {w : Watch} (hc : Consistent w.sql.db) (hw : Waiting w.sql.db b.id)
    (herr : (checkSubmission confs pass i b w).2.sql.errs = 0) :
    w.sql.errs = 0 ∧ Consistent (checkSubmission confs pass i b w).2.sql.db ∧
      (checkSubmission confs pass i b w).2.matured.map Prod.fst =
        w.matured.map Prod.fst ++ (if SettlesAt confs pass i b then [b.id] else []) ∧
      (∀ x, Waiting (checkSubmission confs pass i b w).2.sql.db x ↔
        Waiting w.sql.db x ∧ ¬ (SettlesAt confs pass i b ∧ x = b.id)) ∧
      (checkSubmission confs pass i b w).2.sql.db.nextBlock = w.sql.db.nextBlock := by
  unfold checkSubmission at herr ⊢
  cases hh : pass.header i b.height with
  | none =>
    have hns : ¬ SettlesAt confs pass i b := by simp [SettlesAt, hh]
    simp only [hh] at herr ⊢
    simp [hns, herr, hc]
  | some header =>
    simp only [hh] at herr ⊢
    by_cases hm : matures confs pass.currentHeight b
    · have hs : SettlesAt confs pass i b := ⟨by simp [hh], hm⟩
      simp only [hm, ↓reduceIte] at herr ⊢
      -- the flag is written before the submission is settled
      have hf : (flagOrphaned pass i b header w).sql.errs = 0 :=
        Nat.le_zero.mp ((settle_errs pass i b _ _).trans herr.le)
      obtain ⟨h0, hc1, hmat, hwait, hnb⟩ := flagOrphaned_spec hc hw hf
      obtain ⟨-, hc2, hmat2, hwait2, hnb2⟩ := settle_spec hc1 ((hwait b.id).mpr hw)
        (settledStatus_cases confs _) herr
      refine ⟨h0, hc2, ?_, ?_, hnb2.trans hnb⟩
      · rw [hmat2, hmat]
        simp [hs]
      · intro x
        rw [hwait2, hwait]
        simp [hs]
    · have hns : ¬ SettlesAt confs pass i b := fun h => hm h.2
      simp only [hm, ↓reduceIte] at herr ⊢
      obtain ⟨h0, hc1, hmat, hwait, hnb⟩ := flagOrphaned_spec hc hw herr
      refine ⟨h0, hc1, ?_, ?_, hnb⟩
      · rw [hmat]
        simp [hns]
      · intro x
        rw [hwait]
        simp [hns]

/-! ## One pass -/

/-- The loop keeps exactly the submissions it does not settle. -/
theorem checkLoop_kept (confs : StaticConf) (pass : Pass) (bs : List BlockOverview) :
    ∀ (i : Nat) (w : Watch),
      ((checkLoop confs pass i bs w).1 ++ settledFrom confs pass i bs).Perm bs := by
  induction bs with
  | nil => exact fun _ _ => List.Perm.refl []
  | cons b bs ih =>
    intro i w
    have hstays := checkSubmission_stays confs pass i b w
    have hrest := ih (i + 1) (checkSubmission confs pass i b w).2
    simp only [checkLoop, settledFrom]
    by_cases hs : SettlesAt confs pass i b
    · have hf : (checkSubmission confs pass i b w).1 = false := by
        simpa [hs] using hstays
      simp only [hs, hf, ↓reduceIte, Bool.false_eq_true]
      exact List.perm_middle.trans (hrest.cons b)
    · rw [if_neg hs, if_pos (hstays.mpr hs)]
      exact hrest.cons b

/-- The copies of a submission are divided between those kept and those settled. -/
theorem checkLoop_count (confs : StaticConf) (pass : Pass) (bs : List BlockOverview) (i : Nat)
    (w : Watch) (x : Nat) :
    ((checkLoop confs pass i bs w).1.map (·.id)).count x +
      ((settledFrom confs pass i bs).map (·.id)).count x = (bs.map (·.id)).count x := by
  rw [← List.count_append, ← List.map_append]
  exact ((checkLoop_kept confs pass bs i w).map _).count_eq x

theorem checkLoop_spec {confs : StaticConf} {pass : Pass} (bs : List BlockOverview) :
    ∀ {i : Nat} {w : Watch}, Consistent w.sql.db → (∀ b ∈ bs, Waiting w.sql.db b.id) →
      (∀ b ∈ settledFrom confs pass i bs, (bs.map (·.id)).count b.id ≤ 1) →
      (checkLoop confs pass i bs w).2.sql.errs = 0 →
      Consistent (checkLoop confs pass i bs w).2.sql.db ∧
      (checkLoop confs pass i bs w).2.matured.map Prod.fst =
        w.matured.map Prod.fst ++ (settledFrom confs pass i bs).map (·.id) ∧
      (∀ x, Waiting (checkLoop confs pass i bs w).2.sql.db x ↔
        Waiting w.sql.db x ∧ x ∉ (settledFrom confs pass i bs).map (·.id)) ∧
      (checkLoop confs pass i bs w).2.sql.db.nextBlock = w.sql.db.nextBlock := by
  induction bs with
  | nil => exact fun hc _ _ _ => ⟨hc, by simp [checkLoop, settledFrom],
      by simp [checkLoop, settledFrom], rfl⟩
  | cons b bs ih =>
    intro i w hc hw hone herr
    have hb := hw b (by simp)
    have herr1 : (checkSubmission confs pass i b w).2.sql.errs = 0 :=
      Nat.le_zero.mp ((checkLoop_errs confs pass bs (i + 1) _).trans herr.le)
    obtain ⟨-, hc1, hmat1, hwait1, hnb1⟩ := checkSubmission_spec hc hb herr1
    -- a settled submission has no further copy behind it, so those still wait
    have hw1 : ∀ c ∈ bs, Waiting (checkSubmission confs pass i b w).2.sql.db c.id := by
      intro c hcmem
      refine (hwait1 c.id).mpr ⟨hw c (by simp [hcmem]), ?_⟩
      rintro ⟨hs, heq⟩
      have hcnt := hone b (by simp [settledFrom, hs])
      have hpos : 0 < (bs.map (·.id)).count b.id :=
        List.count_pos_iff.mpr (List.mem_map.mpr ⟨c, hcmem, heq⟩)
      simp only [List.map_cons, List.count_cons_self] at hcnt
      omega
    have hone1 : ∀ c ∈ settledFrom confs pass (i + 1) bs, (bs.map (·.id)).count c.id ≤ 1 := by
      intro c hcmem
      have hcnt := hone c (by simp only [settledFrom]; split <;> simp [hcmem])
      rw [List.map_cons, List.count_cons] at hcnt
      omega
    obtain ⟨hc2, hmat2, hwait2, hnb2⟩ := ih hc1 hw1 hone1 herr
    refine ⟨hc2, ?_, ?_, hnb2.trans hnb1⟩
    · simp only [checkLoop]
      rw [hmat2, hmat1, settledFrom]
      split <;> simp
    · intro x
      simp only [checkLoop]
      rw [hwait2, hwait1, settledFrom]
      by_cases hs : SettlesAt confs pass i b
      · simp only [hs, true_and, ↓reduceIte, List.map_cons, List.mem_cons, not_or]
        exact and_assoc
      · simp [hs]

/-- The state between steps: the books balance, the submissions kept in the vector
still wait, and no block was matured twice or is matured and waiting. -/
structure Sound (w : Watch) : Prop where
  consistent : Consistent w.sql.db
  waiting : ∀ b ∈ w.immatureBlockSubmissions, Waiting w.sql.db b.id
  done : ∀ id ∈ w.matured.map Prod.fst, ¬ Waiting w.sql.db id ∧ id < w.sql.db.nextBlock
  once : (w.matured.map Prod.fst).Nodup

theorem loadImmatureBlocks_waiting {sql : Sql} (hc : Consistent sql.db) {b : BlockOverview}
    (h : b ∈ sql.loadImmatureBlocks) : Waiting sql.db b.id := by
  obtain ⟨r, hr, rfl⟩ := List.mem_map.mp h
  obtain ⟨hmem, himm⟩ := List.mem_filter.mp hr
  unfold Waiting
  rw [statusOf_of_mem hc.block_ids hmem]
  simpa using himm

theorem Sound.pending_waiting {w : Watch} (h : Sound w) {b : BlockOverview}
    (hb : b ∈ pendingSubmissions w) : Waiting w.sql.db b.id := by
  rcases List.mem_append.mp hb with hb | hb
  · exact h.waiting b hb
  · exact loadImmatureBlocks_waiting h.consistent hb

/-- A kept submission shares its id with no settled one. -/
theorem SettlesOnce.kept_not_settled {confs : StaticConf} {pass : Pass} {w : Watch}
    (hone : SettlesOnce confs pass w) {b : BlockOverview}
    (hb : b ∈ (checkLoop confs pass 0 (pendingSubmissions w) w).1) :
    b.id ∉ (settledFrom confs pass 0 (pendingSubmissions w)).map (·.id) := by
  intro hs
  obtain ⟨c, hcs, hid⟩ := List.mem_map.mp hs
  have hcnt := hone c hcs
  have hkept : 0 < ((checkLoop confs pass 0 (pendingSubmissions w) w).1.map (·.id)).count c.id :=
    List.count_pos_iff.mpr (List.mem_map.mpr ⟨b, hb, hid.symm⟩)
  have hsettled : 0 < ((settledFrom confs pass 0 (pendingSubmissions w)).map (·.id)).count c.id :=
    List.count_pos_iff.mpr (List.mem_map.mpr ⟨c, hcs, rfl⟩)
  have htot := checkLoop_count confs pass (pendingSubmissions w) 0 w c.id
  omega

theorem SettlesOnce.settled_nodup {confs : StaticConf} {pass : Pass} {w : Watch}
    (hone : SettlesOnce confs pass w) :
    ((settledFrom confs pass 0 (pendingSubmissions w)).map (·.id)).Nodup := by
  rw [List.nodup_iff_count_le_one]
  intro x
  by_cases hx : x ∈ (settledFrom confs pass 0 (pendingSubmissions w)).map (·.id)
  · obtain ⟨c, hcs, rfl⟩ := List.mem_map.mp hx
    have hcnt := hone c hcs
    have htot := checkLoop_count confs pass (pendingSubmissions w) 0 w c.id
    omega
  · rw [List.count_eq_zero_of_not_mem hx]
    exact Nat.zero_le 1

theorem pass_sound {confs : StaticConf} {pass : Pass} {w : Watch} (h : Sound w)
    (hone : SettlesOnce confs pass w)
    (herr : (checkImmatureSubmissions confs pass w).sql.errs = 0) :
    Sound (checkImmatureSubmissions confs pass w) := by
  have hkept := checkLoop_kept confs pass (pendingSubmissions w) 0 w
  -- what the pass settles was waiting before it
  have hsettled : ∀ id ∈ (settledFrom confs pass 0 (pendingSubmissions w)).map (·.id),
      Waiting w.sql.db id := by
    intro id hid
    obtain ⟨c, hcs, rfl⟩ := List.mem_map.mp hid
    exact h.pending_waiting (hkept.subset (by simp [hcs]))
  obtain ⟨hc, hmat, hwait, hnb⟩ := checkLoop_spec (pendingSubmissions w) h.consistent
    (fun b hb => h.pending_waiting hb) (fun b hb => (hone b hb).le) herr
  refine ⟨hc, ?_, ?_, ?_⟩
  · intro b hb
    change b ∈ (checkLoop confs pass 0 (pendingSubmissions w) w).1 at hb
    have hmem : b ∈ pendingSubmissions w := hkept.subset (by simp [hb])
    exact (hwait b.id).mpr ⟨h.pending_waiting hmem, hone.kept_not_settled hb⟩
  · intro id hid
    change id ∈ (checkLoop confs pass 0 (pendingSubmissions w) w).2.matured.map Prod.fst at hid
    rw [hmat] at hid
    change ¬ Waiting (checkLoop confs pass 0 (pendingSubmissions w) w).2.sql.db id ∧
      id < (checkLoop confs pass 0 (pendingSubmissions w) w).2.sql.db.nextBlock
    rw [hwait, hnb]
    rcases List.mem_append.mp hid with hid | hid
    · exact ⟨fun hx => (h.done id hid).1 hx.1, (h.done id hid).2⟩
    · obtain ⟨st, hst, -⟩ := (hsettled id hid).status
      exact ⟨fun hx => hx.2 hid, statusOf_lt h.consistent.block_fresh hst⟩
  · change ((checkLoop confs pass 0 (pendingSubmissions w) w).2.matured.map Prod.fst).Nodup
    rw [hmat, List.nodup_append]
    refine ⟨h.once, hone.settled_nodup, ?_⟩
    rintro a ha c hc' rfl
    exact (h.done a ha).1 (hsettled a hc')

/-! ## New blocks -/

theorem addRoundRewards_errs (up : Nat → Bool) (blockId : Nat) (entries : List (Nat × RoundReward Nat))
    (sql : Sql) : sql.errs ≤ (sql.addRoundRewards up blockId entries).1.errs := by
  apply Sql.addRoundRewards_induction (P := fun s => sql.errs ≤ s.errs) _ up entries (Nat.le_refl _)
  intro s up minerId reward h
  exact h.trans (Sql.execute_errs s up _)

/-- When no statement has failed, the first one has not. -/
theorem addReward_errs_of_cons {up : Nat → Bool} {blockId minerId : Nat} {reward : RoundReward Nat}
    {entries : List (Nat × RoundReward Nat)} {sql : Sql}
    (herr : (sql.addRoundRewards up blockId ((minerId, reward) :: entries)).1.errs = 0) :
    (sql.execute (up entries.length)
      (fun db => db.addReward minerId blockId reward.reward reward.effort)).1.errs = 0 := by
  simp only [Sql.addRoundRewards] at herr
  split at herr
  · rename_i sql1 hex
    rw [hex]
    exact Nat.le_zero.mp ((addRoundRewards_errs up blockId entries sql1).trans herr.le)
  · rename_i sql1 hex
    rw [hex]
    exact herr

/-- No miner of the entries has a reward of the block. -/
def Unrewarded (db : Db) (blockId : Nat) (entries : List (Nat × RoundReward Nat)) : Prop :=
  ∀ r ∈ db.rewards, r.blockId = blockId → r.minerId ∉ entries.map Prod.fst

theorem Unrewarded.addReward {db db' : Db} {blockId : Nat} {e : Nat × RoundReward Nat}
    {entries : List (Nat × RoundReward Nat)} (h : Unrewarded db blockId (e :: entries))
    (hnot : e.1 ∉ entries.map Prod.fst) {row : RewardRow}
    (hrows : db'.rewards = db.rewards ++ [row]) (hrow : row.minerId = e.1) :
    Unrewarded db' blockId entries := by
  intro r hr hblock
  rw [hrows] at hr
  rcases List.mem_append.mp hr with hold | hnew
  · exact fun hmem => h r hold hblock (List.mem_cons_of_mem _ hmem)
  · rw [List.mem_singleton.mp hnew, hrow]
    exact hnot

/-- The rewards of a block that is pending and has none yet go in without breaking
the ledger. -/
theorem addRoundRewards_spec (up : Nat → Bool) (blockId : Nat)
    (entries : List (Nat × RoundReward Nat)) : ∀ {sql : Sql}, Consistent sql.db →
      sql.db.statusOf blockId = some .PENDING → (entries.map Prod.fst).Nodup →
      Unrewarded sql.db blockId entries →
      (sql.addRoundRewards up blockId entries).1.errs = 0 →
      Consistent (sql.addRoundRewards up blockId entries).1.db ∧
      (sql.addRoundRewards up blockId entries).1.db.blocks = sql.db.blocks ∧
      (sql.addRoundRewards up blockId entries).1.db.nextBlock = sql.db.nextBlock := by
  induction entries with
  | nil => exact fun hc _ _ _ _ => ⟨hc, rfl, rfl⟩
  | cons e entries ih =>
    obtain ⟨minerId, reward⟩ := e
    intro sql hc hst hnd hnew herr
    rw [List.map_cons, List.nodup_cons] at hnd
    obtain ⟨-, hok, hex⟩ := Sql.execute_of_errs (addReward_errs_of_cons herr)
    simp only [Sql.addRoundRewards, hex] at herr ⊢
    have hadd : sql.db.addReward minerId blockId reward.reward reward.effort =
        ((sql.db.addReward minerId blockId reward.reward reward.effort).1, true) := by rw [← hok]
    obtain ⟨-, -, r, hrm, hrb, -, hr, hb, -, hnb, -⟩ := addReward_inv hadd
    have hc1 : Consistent (sql.db.addReward minerId blockId reward.reward reward.effort).1 := by
      refine addReward_consistent hc hst ?_ hadd
      intro r1 hr1 heq
      obtain ⟨h1, h2⟩ := Prod.mk.inj heq
      exact hnew r1 hr1 h2 (by simp [h1])
    have hst1 : (sql.db.addReward minerId blockId reward.reward reward.effort).1.statusOf blockId =
        some .PENDING := by
      rw [← hst, statusOf, statusOf, hb]
    obtain ⟨hc2, hb2, hnb2⟩ := ih hc1 hst1 hnd.2 (hnew.addReward hnd.1 hr hrm) herr
    exact ⟨hc2, hb2.trans hb, hnb2.trans hnb⟩

theorem newBlock_eq (sql : Sql) (submission : BlockSubmission) (shares : RoundShares) :
    newBlock sql submission shares =
      ((sql.execute true (Sql.addBlockStatement submission)).1.addRoundRewards (fun _ => true)
        (sql.execute true (Sql.addBlockStatement submission)).1.db.lastInsertId
        shares.entries).1 := rfl

theorem newBlock_errs (sql : Sql) (submission : BlockSubmission) (shares : RoundShares) :
    sql.errs ≤ (newBlock sql submission shares).errs := by
  rw [newBlock_eq]
  exact (Sql.execute_errs sql true _).trans (addRoundRewards_errs _ _ _ _)

theorem newBlock_spec {sql : Sql} {submission : BlockSubmission} {shares : RoundShares}
    (hc : Consistent sql.db) (herr : (newBlock sql submission shares).errs = 0) :
    Consistent (newBlock sql submission shares).db ∧
      (newBlock sql submission shares).db.nextBlock = sql.db.nextBlock + 1 ∧
      ∀ x, x ≠ sql.db.nextBlock →
        (newBlock sql submission shares).db.statusOf x = sql.db.statusOf x := by
  rw [newBlock_eq] at herr ⊢
  have herr1 : (sql.execute true (Sql.addBlockStatement submission)).1.errs = 0 :=
    Nat.le_zero.mp ((addRoundRewards_errs _ _ _ _).trans herr.le)
  obtain ⟨-, hok, hex⟩ := Sql.execute_of_errs herr1
  rw [hex] at herr ⊢
  have hadd : Sql.addBlockStatement submission sql.db =
      ((Sql.addBlockStatement submission sql.db).1, true) := by rw [← hok]
  obtain ⟨_, _, hins⟩ := addBlockStatement_inv hadd
  obtain ⟨-, -, -, -, -, -, -, -, hnb, -, -⟩ := addBlock_inv hins
  obtain ⟨hc1, hlast, hr, hst, hold⟩ := addBlock_spec hc hins
  simp only [hlast] at herr ⊢
  obtain ⟨hc2, hb2, hnb2⟩ := addRoundRewards_spec (fun _ => true) sql.db.nextBlock shares.entries
    hc1 hst shares.nodup (by
      intro r hmem hbid
      simp only [hr] at hmem
      have hlt := (hc.reward_refs r hmem).2
      omega) herr
  refine ⟨hc2, hnb2.trans hnb, ?_⟩
  intro x hx
  rw [← hold x hx, statusOf, statusOf, hb2]

/-! ## Whole runs -/

theorem step_errs (confs : StaticConf) (w : Watch) (e : Event) :
    w.sql.errs ≤ (step confs w e).sql.errs := by
  cases e with
  | addMiner => exact Sql.execute_errs _ _ _
  | addWorker => exact Sql.execute_errs _ _ _
  | newBlock submission shares => exact newBlock_errs w.sql submission shares
  | pass pass => exact checkLoop_errs confs pass _ 0 w

theorem sound_init : Sound init :=
  ⟨Db.consistent_empty, by simp [init], by simp [init], by simp [init]⟩

theorem Sound.of_db {w : Watch} (h : Sound w) {sql : Sql} (hc : Consistent sql.db)
    (hs : ∀ x, x < w.sql.db.nextBlock → sql.db.statusOf x = w.sql.db.statusOf x)
    (hn : w.sql.db.nextBlock ≤ sql.db.nextBlock) : Sound { w with sql := sql } := by
  have hwait : ∀ x, x < w.sql.db.nextBlock → (Waiting sql.db x ↔ Waiting w.sql.db x) := by
    intro x hx
    unfold Waiting
    rw [hs x hx]
  refine ⟨hc, ?_, ?_, h.once⟩
  · intro b hb
    have hb' := h.waiting b hb
    obtain ⟨st, hst, -⟩ := hb'.status
    exact (hwait _ (statusOf_lt h.consistent.block_fresh hst)).mpr hb'
  · intro id hid
    obtain ⟨hnot, hlt⟩ := h.done id hid
    exact ⟨fun hx => hnot ((hwait id hlt).mp hx), hlt.trans_le hn⟩

theorem step_sound {confs : StaticConf} {w : Watch} {e : Event} (h : Sound w)
    (hone : StepSettlesOnce confs w e) (herr : (step confs w e).sql.errs = 0) :
    Sound (step confs w e) := by
  cases e with
  | addMiner address ali minPayout joinTime =>
    obtain ⟨-, -, hex⟩ := Sql.execute_of_errs herr
    simp only [step, hex]
    have hc := addMiner_consistent h.consistent address ali minPayout joinTime
    refine h.of_db hc ?_ ?_
    · intro x _
      unfold addMiner
      split <;> rfl
    · unfold addMiner
      split <;> exact Nat.le_refl _
  | addWorker minerId name joinTime =>
    obtain ⟨-, -, hex⟩ := Sql.execute_of_errs herr
    simp only [step, hex]
    have hc := addWorker_consistent h.consistent minerId name joinTime
    refine h.of_db hc ?_ ?_
    · intro x _
      unfold addWorker
      split <;> rfl
    · unfold addWorker
      split <;> exact Nat.le_refl _
  | newBlock submission shares =>
    obtain ⟨hc, hnb, hs⟩ := newBlock_spec h.consistent herr
    refine h.of_db hc (fun x hx => hs x (by omega)) ?_
    rw [hnb]
    exact Nat.le_succ _
  | pass pass => exact pass_sound h hone herr

/-- **Rewards mature at most once.** In every run from a new database in which every
statement succeeds and every pass settles only submissions with one copy in its
vector, no block is matured twice and both balances of every miner are the totals of
its rewards on immature and on confirmed blocks. -/
theorem rewards_mature_at_most_once (confs : StaticConf) (events : List Event)
    (hone : Guarded (step confs) (StepSettlesOnce confs) init events)
    (hsql : (run (step confs) init events).sql.errs = 0) :
    ((run (step confs) init events).matured.map Prod.fst).Nodup ∧
      ∀ m ∈ (run (step confs) init events).sql.db.miners,
        m.immatureBalance = (run (step confs) init events).sql.db.rewardsWhere
          BlockStatus.immature m.addressId ∧
        m.matureBalance = (run (step confs) init events).sql.db.rewardsWhere
          isConfirmed m.addressId := by
  have hinv : (run (step confs) init events).sql.errs = 0 →
      Sound (run (step confs) init events) := by
    refine Run.invariant (I := fun w => w.sql.errs = 0 → Sound w) ?_ (fun _ => sound_init) hone
    intro w e hw hok herr
    exact step_sound (hw (Nat.le_zero.mp ((step_errs confs w e).trans herr.le))) hok herr
  have h := hinv hsql
  exact ⟨h.once, h.consistent.balanced⟩

/-- A pass at a stored height against a daemon that has block `hash` at every
height, `tip` blocks deep at height 0, with a database that answers. -/
def healthyPass (currentHeight tip : Nat) (hash : Bytes) : Pass where
  currentHeight := currentHeight
  header := fun _ height => some ⟨tip - height, hash⟩
  up := fun _ _ => true

def sampleBlock (height : Nat) : BlockSubmission where
  id := 0
  minerId := 1
  workerId := 1
  blockType := .PENDING
  chain := 0
  reward := 10
  timeMs := 0
  durationMs := 0
  height := height
  difficulty := 1
  effortPercent := 0
  hashBin := List.Vector.replicate 32 0

def sampleShares : RoundShares where
  entries := [(1, ⟨1, 1, 10⟩)]
  nodup := by simp

def sampleHash : Bytes := Utils.hexlify (List.replicate 32 0)

/-- Two blocks of one miner; a pass too early for either, then one that settles the
first. -/
def earlyThenLate : List Event :=
  [.addMiner (Bytes.ascii "Zx") none 0 0, .addWorker 1 (Bytes.ascii "w") 0,
    .newBlock (sampleBlock 100) sampleShares, .newBlock (sampleBlock 200) sampleShares,
    .pass (healthyPass 105 104 sampleHash), .pass (healthyPass 112 111 sampleHash)]

/-- Every statement of the run succeeds and block 1 is matured twice: the miner is
credited 20 for the single confirmed reward of 10, and nothing of the pending reward
on block 2 is left in its immature balance. -/
theorem rewards_matured_twice :
    (run (step zanoStatic) init earlyThenLate).sql.errs = 0 ∧
      (run (step zanoStatic) init earlyThenLate).matured = [(1, .CONFIRMED), (1, .CONFIRMED)] ∧
      (run (step zanoStatic) init earlyThenLate).sql.db.miners = [⟨1, 20, 0, 0, 0⟩] ∧
      (run (step zanoStatic) init earlyThenLate).sql.db.rewardsWhere isConfirmed 1 = 10 ∧
      (run (step zanoStatic) init earlyThenLate).sql.db.rewardsWhere BlockStatus.immature 1 = 10 ∧
      ¬ ((run (step zanoStatic) init earlyThenLate).matured.map Prod.fst).Nodup := by
  decide +kernel

/-- Passes that come late enough: the first block is settled by the first pass that
sees it, before the second block is found. -/
def lateOnly : List Event :=
  [.addMiner (Bytes.ascii "Zx") none 0 0, .addWorker 1 (Bytes.ascii "w") 0,
    .newBlock (sampleBlock 100) sampleShares, .pass (healthyPass 112 111 sampleHash),
    .newBlock (sampleBlock 200) sampleShares, .pass (healthyPass 212 211 sampleHash)]

theorem rewards_mature_at_most_once_lateOnly :
    ((run (step zanoStatic) init lateOnly).matured.map Prod.fst).Nodup ∧
      ∀ m ∈ (run (step zanoStatic) init lateOnly).sql.db.miners,
        m.immatureBalance = (run (step zanoStatic) init lateOnly).sql.db.rewardsWhere
          BlockStatus.immature m.addressId ∧
        m.matureBalance = (run (step zanoStatic) init lateOnly).sql.db.rewardsWhere
          isConfirmed m.addressId :=
  rewards_mature_at_most_once zanoStatic lateOnly (by decide +kernel) (by decide +kernel)

end SickPool.Blocks.BlockWatcher
