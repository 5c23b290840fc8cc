import SickPool.Blocks.MainChain

/-!
# Status and rewards under failures

`MatureRewards` and the status update of a settled block are two statements, and the
wrappers of both hide a failure. A watcher that stops is started again with an empty
vector. Status and rewards agree in every run in which the two statements take effect
together, on a block that is still immature.
-/
namespace SickPool.Blocks.BlockWatcher

open SickPool.Library SickPool.Persistence SickPool.Persistence.Db
open SickPool.Library.Run (run Guarded)

/-- The place of a statement in its iteration. -/
def Statement.order : Statement → Nat
  | .flagOrphaned => 0
  | .matureRewards => 1
  | .settle => 2

/-- A pass of a process that stops before a statement: no statement from there on is
executed. -/
def Pass.stoppedBefore (pass : Pass) (iteration : Nat) (statement : Statement) : Pass where
  currentHeight := pass.currentHeight
  header := pass.header
  up := fun i st =>
    pass.up i st && decide (i < iteration ∨ i = iteration ∧ st.order < statement.order)

/-- The steps of the pool and the watcher, and a pass in which the process stops; the new
process has an empty vector. -/
inductive RestartEvent where
  | watcher (event : Event)
  | stop (pass : Pass) (iteration : Nat) (statement : Statement)

def restartStep (confs : StaticConf) (w : Watch) : RestartEvent → Watch
  | .watcher event => step confs w event
  | .stop pass iteration statement =>
    { checkImmatureSubmissions confs (pass.stoppedBefore iteration statement) w with
      immatureBlockSubmissions := [] }

/-- A block has a final status exactly if its rewards were matured with it once. -/
def StatusAgrees (w : Watch) : Prop :=
  ∀ id, ∀ st ∈ [BlockStatus.CONFIRMED, .ORPHANED],
    w.sql.db.statusOf id = some st ↔ w.matured.count (id, st) = 1

instance (db : Db) (id : Nat) : Decidable (Waiting db id) := inferInstanceAs (Decidable (_ = _))

/-- A flag that is written finds the block immature. -/
def FlagsWaiting (pass : Pass) (i : Nat) (b : BlockOverview) (header : BlockHeaderRes)
    (w : Watch) : Prop :=
  b.hash ≠ header.hash → b.lastStatus ≠ .PENDING_ORPHANED → pass.up i .flagOrphaned = true →
    Waiting w.sql.db b.id

/-- Both statements of a settled submission take effect, on an immature block, or neither. -/
def SettlesTogether (pass : Pass) (i : Nat) (b : BlockOverview) (status : BlockStatus)
    (w : Watch) : Prop :=
  (w.sql.updateImmatureRewards (pass.up i .matureRewards) b.id status).2 = pass.up i .settle ∧
    (pass.up i .settle = true → Waiting w.sql.db b.id)

def CheckedTogether (confs : StaticConf) (pass : Pass) (i : Nat) (b : BlockOverview)
    (w : Watch) : Prop :=
  match pass.header i b.height with
  | none => True
  | some header => FlagsWaiting pass i b header w ∧
    (matures confs pass.currentHeight b → SettlesTogether pass i b
      (settledStatus confs (confirmations b header)) (flagOrphaned pass i b header w))

/-- Every iteration of a loop is such, in the state in which it runs. -/
def LoopTogether (confs : StaticConf) (pass : Pass) : Nat → List BlockOverview → Watch → Prop
  | _, [], _ => True
  | i, b :: bs, w => CheckedTogether confs pass i b w ∧
    LoopTogether confs pass (i + 1) bs (checkSubmission confs pass i b w).2

/-- The side condition of a step. -/
def PassTogether (confs : StaticConf) (w : Watch) : RestartEvent → Prop
  | .watcher (.pass pass) => LoopTogether confs pass 0 (pendingSubmissions w) w
  | .watcher _ => True
  | .stop pass iteration statement =>
    LoopTogether confs (pass.stoppedBefore iteration statement) 0 (pendingSubmissions w) w

instance (pass : Pass) (i : Nat) (b : BlockOverview) (header : BlockHeaderRes) (w : Watch) :
    Decidable (FlagsWaiting pass i b header w) := inferInstanceAs (Decidable (_ → _))

instance (pass : Pass) (i : Nat) (b : BlockOverview) (status : BlockStatus) (w : Watch) :
    Decidable (SettlesTogether pass i b status w) := inferInstanceAs (Decidable (_ ∧ _))

instance (confs : StaticConf) (pass : Pass) (i : Nat) (b : BlockOverview) (w : Watch) :
    Decidable (CheckedTogether confs pass i b w) := by
  unfold CheckedTogether
  split <;> infer_instance

instance LoopTogether.decidable (confs : StaticConf) (pass : Pass) :
    ∀ i bs w, Decidable (LoopTogether confs pass i bs w)
  | _, [], _ => inferInstanceAs (Decidable True)
  | i, b :: bs, w =>
    have := LoopTogether.decidable confs pass (i + 1) bs (checkSubmission confs pass i b w).2
    inferInstanceAs (Decidable (CheckedTogether confs pass i b w ∧ LoopTogether confs pass (i + 1) bs
      (checkSubmission confs pass i b w).2))

instance (confs : StaticConf) (w : Watch) : ∀ e, Decidable (PassTogether confs w e)
  | .watcher (.pass pass) => LoopTogether.decidable confs pass 0 (pendingSubmissions w) w
  | .watcher (.addMiner ..) | .watcher (.addWorker ..) | .watcher (.newBlock ..) =>
    inferInstanceAs (Decidable True)
  | .stop pass iteration statement =>
    LoopTogether.decidable confs (pass.stoppedBefore iteration statement) 0 (pendingSubmissions w) w

/-! ## The statements -/

theorem Watch.updateBlockStatus_statusOf (w : Watch) (up : Bool) (id : Nat) (status : BlockStatus)
    (x : Nat) : (w.updateBlockStatus up id status).sql.db.statusOf x =
      if up = true ∧ x = id then (w.sql.db.statusOf x).map (fun _ => status)
      else w.sql.db.statusOf x := by
  cases up with
  | false => simp [Watch.updateBlockStatus, Sql.updateBlockStatus, Sql.execute]
  | true =>
    have h := statusOf_updateBlockStatus w.sql.db status id x
    simp only [true_and]
    exact h

theorem Watch.updateImmatureRewards_statusOf (w : Watch) (up : Bool) (id : Nat)
    (status : BlockStatus) (x : Nat) :
    (w.updateImmatureRewards up id status).sql.db.statusOf x = w.sql.db.statusOf x := by
  rw [statusOf, statusOf, (w.updateImmatureRewards_blocks up id status).1]

/-- The state between iterations: rows have ids of their own, status and rewards agree, and
an immature block was not matured. -/
structure Settled (w : Watch) : Prop where
  ids : (w.sql.db.blocks.map (·.id)).Nodup
  fresh : ∀ r ∈ w.sql.db.blocks, r.id < w.sql.db.nextBlock
  agrees : StatusAgrees w
  untouched : ∀ id, Waiting w.sql.db id → ∀ st, (id, st) ∉ w.matured
  known : ∀ v ∈ w.matured, v.1 < w.sql.db.nextBlock

theorem Waiting.not_final {db : Db} {id : Nat} (h : Waiting db id) {st : BlockStatus}
    (hst : st ∈ [BlockStatus.CONFIRMED, .ORPHANED]) : db.statusOf id ≠ some st := by
  intro hs
  unfold Waiting at h
  rw [hs] at h
  simp only [List.mem_cons, List.not_mem_nil, or_false] at hst
  rcases hst with rfl | rfl <;> cases h

theorem Waiting.of_eq {db db' : Db} {id : Nat} (h : Waiting db' id)
    (hst : db'.statusOf id = db.statusOf id) : Waiting db id := by
  unfold Waiting at *
  rwa [hst] at h

theorem SameExcept.fresh {id : Nat} {db db' : Db} (h : SameExcept id db db')
    (hf : ∀ r ∈ db.blocks, r.id < db.nextBlock) : ∀ r ∈ db'.blocks, r.id < db'.nextBlock := by
  intro r hr
  have hmem : r.id ∈ db.blocks.map (·.id) := h.ids ▸ List.mem_map_of_mem hr
  obtain ⟨r0, hr0, he⟩ := List.mem_map.mp hmem
  rw [h.next, ← he]
  exact hf r0 hr0

/-- Rows of the same ids, of which some stay immature, and nothing matured. -/
theorem Settled.of_waiting {w w' : Watch} {id : Nat} (h : Settled w)
    (hsame : SameExcept id w.sql.db w'.sql.db) (hmat : w'.matured = w.matured)
    (hother : ∀ x, x ≠ id → w'.sql.db.statusOf x = w.sql.db.statusOf x)
    (hid : w'.sql.db.statusOf id = w.sql.db.statusOf id ∨
      Waiting w.sql.db id ∧ Waiting w'.sql.db id) : Settled w' := by
  have hcases : ∀ x, w'.sql.db.statusOf x = w.sql.db.statusOf x ∨
      Waiting w.sql.db x ∧ Waiting w'.sql.db x := by
    intro x
    by_cases hx : x = id
    · exact hx ▸ hid
    · exact .inl (hother x hx)
  refine ⟨hsame.ids ▸ h.ids, hsame.fresh h.fresh, fun x st hst => ?_, fun x hx => ?_, ?_⟩
  · rw [hmat]
    rcases hcases x with heq | ⟨hw, hw'⟩
    · rw [heq]
      exact h.agrees x st hst
    · rw [← h.agrees x st hst]
      exact iff_of_false (hw'.not_final hst) (hw.not_final hst)
  · rw [hmat]
    rcases hcases x with heq | ⟨hw, -⟩
    · exact h.untouched x (hx.of_eq heq)
    · exact h.untouched x hw
  · rw [hmat, hsame.next]
    exact h.known

/-- An immature block gets its final status and is matured with it. -/
theorem Settled.of_settled {w w' : Watch} {id : Nat} {status : BlockStatus} (h : Settled w)
    (hsame : SameExcept id w.sql.db w'.sql.db) (hw : Waiting w.sql.db id)
    (hfinal : status ∈ [BlockStatus.CONFIRMED, .ORPHANED])
    (hmat : w'.matured = w.matured ++ [(id, status)])
    (hother : ∀ x, x ≠ id → w'.sql.db.statusOf x = w.sql.db.statusOf x)
    (hid : w'.sql.db.statusOf id = some status) : Settled w' := by
  have hwait' : ∀ x, Waiting w'.sql.db x → x ≠ id ∧ Waiting w.sql.db x := by
    intro x hx
    have hne : x ≠ id := by
      rintro rfl
      exact hx.not_final hfinal hid
    exact ⟨hne, hx.of_eq (hother x hne)⟩
  refine ⟨hsame.ids ▸ h.ids, hsame.fresh h.fresh, fun x st hst => ?_, fun x hx st => ?_,
    fun v hv => ?_⟩
  · rw [hmat, List.count_append, List.count_singleton]
    by_cases hx : x = id
    · subst hx
      rw [hid, List.count_eq_zero_of_not_mem (h.untouched x hw st)]
      by_cases hs : status = st <;> simp [hs]
    · have hne : ¬ (id, status) = (x, st) := fun he => hx (Prod.mk.inj he).1.symm
      rw [hother x hx]
      simpa [hne] using h.agrees x st hst
  · obtain ⟨hne, hwx⟩ := hwait' x hx
    rw [hmat, List.mem_append, List.mem_singleton]
    rintro (hmem | he)
    · exact h.untouched x hwx st hmem
    · exact hne (Prod.mk.inj he).1
  · rw [hmat] at hv
    rw [hsame.next]
    rcases List.mem_append.mp hv with hv | hv
    · exact h.known v hv
    · obtain rfl := List.mem_singleton.mp hv
      obtain ⟨st, hst, -⟩ := hw.status
      exact statusOf_lt h.fresh hst

/-! ## One iteration -/

theorem flagOrphaned_settled {pass : Pass} {i : Nat} {b : BlockOverview} {header : BlockHeaderRes}
    {w : Watch} (h : Settled w) (hok : FlagsWaiting pass i b header w) :
    Settled (flagOrphaned pass i b header w) := by
  unfold flagOrphaned
  split
  · rename_i hcond
    have hst := w.updateBlockStatus_statusOf (pass.up i .flagOrphaned) b.id .PENDING_ORPHANED
    refine h.of_waiting (w.updateBlockStatus_sameExcept _ _ _) rfl (fun x hx => ?_) ?_
    · rw [hst, if_neg fun hc => hx hc.2]
    · cases hup : pass.up i .flagOrphaned with
      | false =>
        rw [hup] at hst
        exact .inl ((hst b.id).trans (if_neg (by simp)))
      | true =>
        have hw := hok hcond.1 hcond.2 hup
        obtain ⟨st, hs, -⟩ := hw.status
        refine .inr ⟨hw, ?_⟩
        rw [hup] at hst
        unfold Waiting
        rw [hst, if_pos ⟨rfl, rfl⟩, hs]
        rfl
  · exact h

theorem settle_settled {pass : Pass} {i : Nat} {b : BlockOverview} {status : BlockStatus}
    {w : Watch} (h : Settled w) (hfinal : status ∈ [BlockStatus.CONFIRMED, .ORPHANED])
    (hok : SettlesTogether pass i b status w) : Settled (settle pass i b status w) := by
  obtain ⟨hboth, hwait⟩ := hok
  have hblocks := w.updateImmatureRewards_blocks (pass.up i .matureRewards) b.id status
  have hsame : SameExcept b.id w.sql.db (settle pass i b status w).sql.db :=
    (SameExcept.of_blocks hblocks.1 hblocks.2).trans (Watch.updateBlockStatus_sameExcept _ _ _ _)
  have hst : ∀ x, (settle pass i b status w).sql.db.statusOf x =
      if pass.up i .settle = true ∧ x = b.id then (w.sql.db.statusOf x).map (fun _ => status)
      else w.sql.db.statusOf x := by
    intro x
    rw [settle, Watch.updateBlockStatus_statusOf, Watch.updateImmatureRewards_statusOf]
  have hmat : (settle pass i b status w).matured =
      if pass.up i .settle = true then w.matured ++ [(b.id, status)] else w.matured := by
    rw [← hboth]
    rfl
  have hother : ∀ x, x ≠ b.id →
      (settle pass i b status w).sql.db.statusOf x = w.sql.db.statusOf x :=
    fun x hx => (hst x).trans (if_neg fun hc => hx hc.2)
  cases hup : pass.up i .settle with
  | false =>
    rw [hup] at hmat
    exact h.of_waiting hsame hmat hother (.inl ((hst b.id).trans (if_neg (by simp [hup]))))
  | true =>
    obtain ⟨st, hs, -⟩ := (hwait hup).status
    rw [if_pos hup] at hmat
    refine h.of_settled hsame (hwait hup) hfinal hmat hother ?_
    rw [hst, if_pos ⟨hup, rfl⟩, hs]
    rfl

theorem checkSubmission_settled {confs : StaticConf} {pass : Pass} {i : Nat} {b : BlockOverview}
    {w : Watch} (h : Settled w) (hok : CheckedTogether confs pass i b w) :
    Settled (checkSubmission confs pass i b w).2 := by
  unfold CheckedTogether at hok
  unfold checkSubmission
  cases hh : pass.header i b.height with
  | none => exact h
  | some header =>
    rw [hh] at hok
    have hflag := flagOrphaned_settled h hok.1
    simp only
    split
    · rename_i hm
      have hfinal : settledStatus confs (confirmations b header) ∈
          [BlockStatus.CONFIRMED, .ORPHANED] := by
        simpa using settledStatus_cases confs (confirmations b header)
      exact settle_settled hflag hfinal (hok.2 hm)
    · exact hflag

theorem checkLoop_settled {confs : StaticConf} {pass : Pass} (bs : List BlockOverview) :
    ∀ {i : Nat} {w : Watch}, Settled w → LoopTogether confs pass i bs w →
      Settled (checkLoop confs pass i bs w).2 := by
  induction bs with
  | nil => exact fun h _ => h
  | cons b bs ih => exact fun h hok => ih (checkSubmission_settled h hok.1) hok.2

/-! ## Whole runs -/

/-- A step that is not a pass matures nothing, and a new row is pending. -/
theorem step_pending (confs : StaticConf) (w : Watch) {e : Event} (he : ∀ pass, e ≠ .pass pass) :
    (step confs w e).matured = w.matured ∧
      ∀ r ∈ (step confs w e).sql.db.blocks, r ∈ w.sql.db.blocks ∨ r.status = .PENDING := by
  have hexecute : ∀ up body, (∀ r ∈ (body w.sql.db).1.blocks, r ∈ w.sql.db.blocks ∨
      r.status = .PENDING) → ∀ r ∈ (w.sql.execute up body).1.db.blocks, r ∈ w.sql.db.blocks ∨
      r.status = .PENDING :=
    fun up body => execute_db (P := fun db => ∀ r ∈ db.blocks, r ∈ w.sql.db.blocks ∨
      r.status = .PENDING) up body (fun r hr => .inl hr)
  cases e with
  | addMiner address ali minPayout joinTime =>
    refine ⟨rfl, hexecute _ _ ?_⟩
    unfold addMiner
    split <;> exact fun r hr => .inl hr
  | addWorker minerId name joinTime =>
    refine ⟨rfl, hexecute _ _ ?_⟩
    unfold addWorker
    split <;> exact fun r hr => .inl hr
  | newBlock submission shares =>
    refine ⟨rfl, ?_⟩
    have hb := (addRoundRewards_blocks (fun _ => true)
      (w.sql.execute true (Sql.addBlockStatement submission)).1.db.lastInsertId shares.entries
      (w.sql.execute true (Sql.addBlockStatement submission)).1).1
    simp only [step, newBlock_eq, hb]
    refine hexecute _ _ ?_
    unfold Sql.addBlockStatement addBlock
    split
    · split
      · intro r hr
        rcases List.mem_append.mp hr with hr | hr
        · exact .inl hr
        · obtain rfl := List.mem_singleton.mp hr
          exact .inr rfl
      · exact fun r hr => .inl hr
    · exact fun r hr => .inl hr
  | pass pass => exact absurd rfl (he pass)

/-- A new pending row keeps the agreement: its id was never used. -/
theorem Settled.of_row {w w' : Watch} {row : BlockRow} (h : Settled w)
    (hid : row.id = w.sql.db.nextBlock) (hrow : row.status = .PENDING)
    (hb : w'.sql.db.blocks = w.sql.db.blocks ++ [row])
    (hn : w'.sql.db.nextBlock = w.sql.db.nextBlock + 1) (hmat : w'.matured = w.matured) :
    Settled w' := by
  have hother : ∀ x, x ≠ row.id → w'.sql.db.statusOf x = w.sql.db.statusOf x :=
    fun x hx => statusOf_append_other hb hx
  have hnew : w'.sql.db.statusOf row.id = some .PENDING :=
    hrow ▸ statusOf_append_new hb (hid ▸ h.fresh)
  have hunused : ∀ st, (row.id, st) ∉ w.matured := by
    intro st hmem
    have hlt := h.known _ hmem
    dsimp only at hlt
    omega
  refine ⟨?_, ?_, fun x st hst => ?_, fun x hx st => ?_, fun v hv => ?_⟩
  · rw [hb]
    exact Table.nodup_append_next h.ids h.fresh hid
  · rw [hb, hn]
    exact Table.lt_next_append_row h.fresh hid
  · rw [hmat]
    by_cases hx : x = row.id
    · subst hx
      have hwait : Waiting w'.sql.db row.id := by
        unfold Waiting
        rw [hnew]
        rfl
      rw [List.count_eq_zero_of_not_mem (hunused st)]
      exact iff_of_false (hwait.not_final hst) (by decide)
    · rw [hother x hx]
      exact h.agrees x st hst
  · rw [hmat]
    by_cases he : x = row.id
    · exact he ▸ hunused st
    · exact h.untouched x (hx.of_eq (hother x he)) st
  · rw [hmat] at hv
    rw [hn]
    exact Nat.lt_succ_of_lt (h.known v hv)

theorem step_settled {confs : StaticConf} {w : Watch} {e : Event} (he : ∀ pass, e ≠ .pass pass)
    (h : Settled w) : Settled (step confs w e) := by
  obtain ⟨-, -, hgrown⟩ := step_grown confs w he
  obtain ⟨hmat, hpend⟩ := step_pending confs w he
  rcases hgrown with ⟨hb, hn⟩ | ⟨row, hid, hb, hn⟩
  · have hst : ∀ x, (step confs w e).sql.db.statusOf x = w.sql.db.statusOf x :=
      fun x => by rw [statusOf, statusOf, hb]
    exact h.of_waiting (SameExcept.of_blocks hb hn : SameExcept 0 _ _) hmat (fun x _ => hst x)
      (.inl (hst 0))
  · have hrow : row.status = .PENDING := by
      refine (hpend row (by simp [hb])).resolve_left fun hmem => ?_
      have hlt := h.fresh row hmem
      omega
    exact h.of_row hid hrow hb hn hmat

theorem restartStep_settled {confs : StaticConf} {w : Watch} {e : RestartEvent} (h : Settled w)
    (hok : PassTogether confs w e) : Settled (restartStep confs w e) := by
  have hpass : ∀ {pass : Pass} {vector : List BlockOverview},
      LoopTogether confs pass 0 (pendingSubmissions w) w →
      Settled { checkImmatureSubmissions confs pass w with immatureBlockSubmissions := vector } := by
    intro pass vector hloop
    obtain ⟨h1, h2, h3, h4, h5⟩ := checkLoop_settled (pendingSubmissions w) h hloop
    exact ⟨h1, h2, h3, h4, h5⟩
  cases e with
  | watcher event =>
    by_cases he : ∀ pass, event ≠ .pass pass
    · exact (step_settled he h : Settled (step confs w event))
    · obtain ⟨pass, rfl⟩ : ∃ pass, event = .pass pass := by simpa using he
      exact hpass hok
  | stop pass iteration statement => exact hpass hok

/-- **Status and rewards agree.** In every run from a new database, with statements that
fail and processes that stop, in which the two statements of a settled block take effect
together and on an immature block. -/
theorem status_agrees (confs : StaticConf) (events : List RestartEvent)
    (hok : Guarded (restartStep confs) (PassTogether confs) init events) :
    StatusAgrees (run (restartStep confs) init events) := by
  have h0 : Settled init := by
    refine ⟨by simp [init, Db.empty], by simp [init, Db.empty], fun id st _ => ?_,
      by simp [init], by simp [init]⟩
    simp [init, statusOf, Db.empty]
  exact (Run.invariant (I := Settled) (fun _ _ h he => restartStep_settled h he) h0 hok).agrees

/-- A pass of `healthyPass` in which some statements fail. -/
def failingPass (failed : List Statement) : Pass :=
  { healthyPass 112 111 sampleHash with up := fun _ st => decide (st ∉ failed) }

def oneBlock : List RestartEvent :=
  [.watcher (.addMiner (Bytes.ascii "Zx") none 0 0), .watcher (.addWorker 1 (Bytes.ascii "w") 0),
    .watcher (.newBlock (sampleBlock 100) sampleShares)]

/-- A pass in which both statements fail, one that stops before the first of them, and one
that settles the block. -/
theorem status_agrees_after_failures :
    Guarded (restartStep zanoStatic) (PassTogether zanoStatic) init (oneBlock ++
        [.watcher (.pass (failingPass [.matureRewards, .settle])),
          .stop (failingPass []) 0 .matureRewards, .watcher (.pass (failingPass []))]) ∧
      StatusAgrees (run (restartStep zanoStatic) init (oneBlock ++
        [.watcher (.pass (failingPass [.matureRewards, .settle])),
          .stop (failingPass []) 0 .matureRewards, .watcher (.pass (failingPass []))])) := by
  have htogether : Guarded (restartStep zanoStatic) (PassTogether zanoStatic) init (oneBlock ++
      [.watcher (.pass (failingPass [.matureRewards, .settle])),
        .stop (failingPass []) 0 .matureRewards, .watcher (.pass (failingPass []))]) := by
    decide +kernel
  exact ⟨htogether, status_agrees zanoStatic _ htogether⟩

/-- The update fails after the rewards have matured, or the process stops between the two:
the block is matured and still pending, and the next pass matures it again. -/
theorem status_disagrees :
    ((run (restartStep zanoStatic) init (oneBlock ++
        [.watcher (.pass (failingPass [.settle]))])).sql.db.statusOf 1 = some .PENDING ∧
      (run (restartStep zanoStatic) init (oneBlock ++
        [.watcher (.pass (failingPass [.settle]))])).matured = [(1, .CONFIRMED)] ∧
      ¬ StatusAgrees (run (restartStep zanoStatic) init (oneBlock ++
        [.watcher (.pass (failingPass [.settle]))]))) ∧
    ((run (restartStep zanoStatic) init (oneBlock ++
        [.stop (failingPass []) 0 .settle])).sql.db.statusOf 1 = some .PENDING ∧
      (run (restartStep zanoStatic) init (oneBlock ++
        [.stop (failingPass []) 0 .settle])).matured = [(1, .CONFIRMED)] ∧
      ¬ StatusAgrees (run (restartStep zanoStatic) init (oneBlock ++
        [.stop (failingPass []) 0 .settle]))) := by
  have hnot : ∀ w : Watch, w.sql.db.statusOf 1 = some .PENDING → w.matured = [(1, .CONFIRMED)] →
      ¬ StatusAgrees w := by
    intro w hst hmat h
    have hconfirmed := (h 1 .CONFIRMED (by simp)).mpr (by rw [hmat]; rfl)
    rw [hst] at hconfirmed
    cases hconfirmed
  have hfailed : (run (restartStep zanoStatic) init (oneBlock ++
        [.watcher (.pass (failingPass [.settle]))])).sql.db.statusOf 1 = some .PENDING ∧
      (run (restartStep zanoStatic) init (oneBlock ++
        [.watcher (.pass (failingPass [.settle]))])).matured = [(1, .CONFIRMED)] := by
    decide +kernel
  have hstopped : (run (restartStep zanoStatic) init (oneBlock ++
        [.stop (failingPass []) 0 .settle])).sql.db.statusOf 1 = some .PENDING ∧
      (run (restartStep zanoStatic) init (oneBlock ++
        [.stop (failingPass []) 0 .settle])).matured = [(1, .CONFIRMED)] := by
    decide +kernel
  exact ⟨⟨hfailed.1, hfailed.2, hnot _ hfailed.1 hfailed.2⟩,
    hstopped.1, hstopped.2, hnot _ hstopped.1 hstopped.2⟩

end SickPool.Blocks.BlockWatcher
