import SickPool.Stratum.HandleShare
import SickPool.Library.Run

/-!
# Which jobs can still be found

The jobs kept by `JobManager` over every sequence of templates given to `GetNewJob`. The
eviction in `SetNewJob` goes by the flag the job was made with, not by the comparison of
heights in `GetNewJob`: a ZEC job is always clean, a CN job only if its height is above
that of the job before it.
-/
namespace SickPool.Jobs

open SickPool.Library SickPool.Library.Bytes SickPool.Library.Run SickPool.Utils SickPool.Crypto
open SickPool.Persistence SickPool.Stratum

variable {p : StratumProtocol}

/-! ## Jobs of the current height stay -/

/-- A job manager with the jobs accepted since the most recent template whose height was
not that of the last job then, the job of that template included. -/
structure JobHistory (p : StratumProtocol) where
  manager : JobManager p
  since : List (Job p)

namespace JobHistory

def start (hashes : Hashes) (res : BlockTemplateRes p) : JobHistory p where
  manager := JobManager.getFirstJob hashes res
  since := [Job.make hashes 0 res true]

def step (hashes : Hashes) (h : JobHistory p) (template : BlockTemplateRes p) : JobHistory p where
  manager := (h.manager.getNewJob hashes template).1
  since := (if template.height = h.manager.lastJob.base.height then h.since else []) ++
    (h.manager.getNewJob hashes template).2.toList

/-- `last_job` is the last of `jobs`, and `GetJob` finds a job under the id of every job
accepted since the height changed. -/
def Valid (h : JobHistory p) : Prop :=
  h.manager.jobs.getLast? = some h.manager.lastJob ∧
    ∀ job ∈ h.since, ∃ found,
      h.manager.getJob job.base.id = some found ∧ found.base.id = job.base.id

/-- A ZEC manager that has accepted a job since the height changed gets no new template of
the same height: one of that height has the Merkle root of the last job. -/
def Spares (hashes : Hashes) (h : JobHistory p) (template : BlockTemplateRes p) : Prop :=
  p = .ZEC → h.since ≠ [] → template.height = h.manager.lastJob.base.height →
    ¬ h.manager.accepts hashes template

/-- The jobs since the height changed are all kept. A ZEC manager keeps one job only, named
by the count before it. -/
structure Kept (h : JobHistory p) : Prop where
  last : h.manager.jobs.getLast? = some h.manager.lastJob
  kept : ∀ job ∈ h.since, job ∈ h.manager.jobs
  single : p = .ZEC → h.manager.jobs = [h.manager.lastJob]
  named : p = .ZEC → ∃ k < uint32Size, h.manager.lastJob.base.id = fmtHex 8 k ∧
    h.manager.jobCount = (k + 1) % uint32Size

variable {h : JobHistory p} {hashes : Hashes}

theorem Kept.valid (hk : h.Kept) : h.Valid :=
  ⟨hk.last, fun _ hm => JobManager.getJob_of_mem (hk.kept _ hm)⟩

theorem kept_start (hashes : Hashes) (res : BlockTemplateRes p) : (start hashes res).Kept where
  last := rfl
  kept := fun job hm => hm
  single := fun _ => rfl
  named := by
    rintro rfl
    exact ⟨0, by decide, rfl, rfl⟩

/-- One accepted template keeps the jobs, unless the manager is a ZEC one and the template
is of the height of a job accepted before. -/
theorem kept_step {template : BlockTemplateRes p} (hk : h.Kept) (hs : h.Spares hashes template) :
    (h.step hashes template).Kept := by
  obtain ⟨ha, he⟩ | ⟨job, ha, he, hjob⟩ := JobManager.getNewJob_cases hashes h.manager template
  · refine ⟨?_, ?_, ?_, ?_⟩ <;> simp only [step, he]
    · exact hk.last
    · intro other hm
      simp only [Option.toList_none, List.append_nil] at hm
      split at hm
      · exact hk.kept other hm
      · simp at hm
    · exact hk.single
    · exact hk.named
  · have hclean : job.base.clean =
        (decide (p = .ZEC) || decide (h.manager.lastJob.base.height < template.height)) := by
      rw [hjob, Job.make_clean]
    refine ⟨?_, ?_, ?_, ?_⟩ <;> simp only [step, he]
    · exact JobManager.getLast?_setNewJob h.manager job
    · intro other hm
      simp only [Option.toList_some, List.mem_append, List.mem_singleton] at hm
      rcases hm with hm | rfl
      · -- an old job is in the book only at an unchanged height, where a CN job is not clean
        split at hm
        · rename_i heq
          have hcn : p ≠ .ZEC := fun hz => hs hz (List.ne_nil_of_mem hm) heq ha
          have hc : job.base.clean = false := by simp [hclean, hcn, heq]
          simp [JobManager.setNewJob, hc, hk.kept other hm]
        · simp at hm
      · simp [JobManager.setNewJob]
    · intro hz
      have hc : job.base.clean = true := by simp [hclean, hz]
      simp [JobManager.setNewJob, hc]
    · rintro rfl
      refine ⟨h.manager.jobCount, ?_, by rw [hjob]; rfl, rfl⟩
      obtain ⟨k, -, -, hcount⟩ := hk.named rfl
      rw [hcount]
      exact Nat.mod_lt _ (by decide)

theorem succ_mod_ne (k : Nat) : (k + 1) % uint32Size ≠ k := by
  have hsize : uint32Size = 4294967296 := rfl
  rw [hsize]
  omega

/-- An accepted ZEC template of the same height takes away the job of the height, whose id
is not that of the new one. -/
theorem spares_of_valid {template : BlockTemplateRes p} (hk : h.Kept)
    (hv : (h.step hashes template).Valid) : h.Spares hashes template := by
  rintro rfl hne heq ha
  obtain ⟨hna, -⟩ | ⟨job, -, he, hjob⟩ := JobManager.getNewJob_cases hashes h.manager template
  · exact hna ha
  obtain ⟨old, hold⟩ := List.exists_mem_of_ne_nil _ hne
  have hlast : old = h.manager.lastJob := by simpa [hk.single rfl] using hk.kept old hold
  have hmem : old ∈ (h.step hashes template).since := by simp [step, heq, hold]
  obtain ⟨found, hf, -⟩ := hv.2 old hmem
  simp only [step, he] at hf
  have hid := (JobManager.getJob_setNewJob_clean (by rw [hjob, Job.make_clean]; rfl) hf).2
  obtain ⟨k, hlt, hname, hcount⟩ := hk.named rfl
  rw [hjob, Job.make_id_zec, hlast, hname] at hid
  have hsize : (16 : Nat) ^ 8 = uint32Size := by decide
  have hinj := fmtHex_inj (by rw [hsize, hcount]; exact Nat.mod_lt _ (by decide))
    (by rw [hsize]; exact hlt) hid
  exact succ_mod_ne k (hcount.symm.trans hinj)

/-- Over every sequence of templates the jobs stay until the height changes, exactly if no
ZEC template of an unchanged height brings a new Merkle root. -/
theorem valid_iff (hashes : Hashes) (res : BlockTemplateRes p)
    (templates : List (BlockTemplateRes p)) :
    Always (step hashes) Valid (start hashes res) templates ↔
      Guarded (step hashes) (Spares hashes) (start hashes res) templates :=
  always_iff_guarded_of_invariant (I := Kept) (fun _ hk => hk.valid)
    (fun _ _ hk hs => kept_step hk hs) (fun _ _ hk hv => spares_of_valid hk hv)
    (kept_start hashes res) templates

def firstZec : BlockTemplateRes .ZEC := sampleTemplateZec []

/-- A template of the same height with another transaction. -/
def otherZec : BlockTemplateRes .ZEC :=
  { sampleTemplateZec [] with transactions := [⟨[], List.replicate 64 49, 0⟩] }

/-- A second template of the same height takes the place of the first job, whose id is no
longer found. -/
theorem zec_job_lost_at_same_height :
    ¬ Always (step (constHashes maxHash)) Valid (start (constHashes maxHash) firstZec) [otherZec] ∧
      firstZec.height = otherZec.height ∧
      ((step (constHashes maxHash) (start (constHashes maxHash) firstZec)
        otherZec).manager.getJob (ascii "00000000")).isSome = false := by
  refine ⟨?_, rfl, by decide +kernel⟩
  intro h
  have hs := spares_of_valid (kept_start (constHashes maxHash) firstZec) h.2
  have hnew : (JobManager.getFirstJob (constHashes maxHash) firstZec).lastJob.same
      (Job.make (constHashes maxHash) 1 otherZec false) = false := by decide +kernel
  exact hs rfl (List.cons_ne_nil _ _) rfl (fun _ => hnew)

end JobHistory

/-! ## Only jobs of the current height are found -/

namespace JobManager

variable {jm : JobManager p} {hashes : Hashes}

def nextTemplate (hashes : Hashes) (jm : JobManager p) (template : BlockTemplateRes p) :
    JobManager p :=
  (jm.getNewJob hashes template).1

/-- Every job that `GetJob` returns is of the height of `last_job`. -/
def CurrentOnly (jm : JobManager p) : Prop :=
  ∀ id found, jm.getJob id = some found → found.base.height = jm.lastJob.base.height

/-- A CN manager gets no new template of a lower height: one of a lower height has the
transaction sum of the last job. -/
def NoFall (hashes : Hashes) (jm : JobManager p) (template : BlockTemplateRes p) : Prop :=
  p = .CN → template.height < jm.lastJob.base.height → ¬ jm.accepts hashes template

structure SameHeight (jm : JobManager p) : Prop where
  nonempty : jm.jobs ≠ []
  same : ∀ job ∈ jm.jobs, job.base.height = jm.lastJob.base.height

theorem SameHeight.currentOnly (hs : jm.SameHeight) : jm.CurrentOnly :=
  fun _ found hf => hs.same found (mem_of_getJob hf).1

theorem sameHeight_getFirstJob (hashes : Hashes) (res : BlockTemplateRes p) :
    (getFirstJob hashes res).SameHeight where
  nonempty := List.cons_ne_nil _ _
  same := by
    intro job hm
    obtain rfl := List.mem_singleton.mp hm
    rfl

theorem sameHeight_nextTemplate {template : BlockTemplateRes p} (hs : jm.SameHeight)
    (hn : jm.NoFall hashes template) : (jm.nextTemplate hashes template).SameHeight := by
  unfold nextTemplate
  obtain ⟨-, he⟩ | ⟨job, ha, he, hjob⟩ := getNewJob_cases hashes jm template
  · rw [he]
    exact hs
  · rw [he]
    refine ⟨by simp [setNewJob], ?_⟩
    intro other hm
    rw [setNewJob_lastJob]
    rcases mem_setNewJob hm with rfl | ⟨hc, hold⟩
    · rfl
    · -- the new job is not clean, so it is a CN job of no greater height
      rw [hjob, Job.make_clean, Bool.or_eq_false_iff, decide_eq_false_iff_not,
        decide_eq_false_iff_not] at hc
      have hcn : p = .CN := by
        cases p with
        | ZEC => exact absurd rfl hc.1
        | CN => rfl
      have hge : ¬ template.height < jm.lastJob.base.height := fun hlt => hn hcn hlt ha
      rw [hs.same other hold, hjob, Job.make_height]
      omega

/-- A new CN template of a lower height leaves the oldest job to be found. -/
theorem noFall_of_currentOnly {template : BlockTemplateRes p} (hs : jm.SameHeight)
    (hcur : (jm.nextTemplate hashes template).CurrentOnly) : jm.NoFall hashes template := by
  rintro rfl hlt ha
  unfold nextTemplate at hcur
  obtain ⟨hna, -⟩ | ⟨job, -, he, hjob⟩ := getNewJob_cases hashes jm template
  · exact hna ha
  rw [he] at hcur
  obtain ⟨old, rest, hjobs⟩ := List.exists_cons_of_ne_nil hs.nonempty
  have hc : job.base.clean = false := by
    rw [hjob, Job.make_clean]
    simp
    omega
  have hnew : (jm.setNewJob job).jobs = old :: (rest ++ [job]) := by
    simp [setNewJob, hc, hjobs]
  have hheight := hcur old.base.id old (getJob_head hnew)
  rw [setNewJob_lastJob, hjob, Job.make_height, hs.same old (by simp [hjobs])] at hheight
  omega

/-- Over every sequence of templates only jobs of the current height are found, exactly if
no CN template of a lower height brings a new transaction sum. -/
theorem current_only_iff (hashes : Hashes) (res : BlockTemplateRes p)
    (templates : List (BlockTemplateRes p)) :
    Always (nextTemplate hashes) CurrentOnly (getFirstJob hashes res) templates ↔
      Guarded (nextTemplate hashes) (NoFall hashes) (getFirstJob hashes res) templates :=
  always_iff_guarded_of_invariant (I := SameHeight) (fun _ hs => hs.currentOnly)
    (fun _ _ hs hn => sameHeight_nextTemplate hs hn)
    (fun _ _ hs hcur => noFall_of_currentOnly hs hcur) (sameHeight_getFirstJob hashes res) templates

def templateAt (height : Nat) (transactions : Bytes) : BlockTemplateRes .CN :=
  { sampleTemplate with blob := transactions, height := height }

/-- Blobs are read as one transaction hash each. -/
def txHashes : Hashes :=
  { constHashes maxHash with
    unserializeBlock := fun blob => ⟨0, [toArray 32 blob], blob⟩
    cnFastHash := fun blob => toArray 32 blob }

/-- After a fall from height 2 to height 1 the job of height 2 is still found. -/
theorem cn_job_kept_after_fall :
    ¬ Always (nextTemplate txHashes) CurrentOnly
        (getFirstJob txHashes (templateAt 2 (ascii "01"))) [templateAt 1 (ascii "02")] ∧
      ((nextTemplate txHashes (getFirstJob txHashes (templateAt 2 (ascii "01")))
        (templateAt 1 (ascii "02"))).getJob
          (hexlify (toArray 32 (unhexlify (ascii "01"))).toList)).map (·.base.height) = some 2 ∧
      (nextTemplate txHashes (getFirstJob txHashes (templateAt 2 (ascii "01")))
        (templateAt 1 (ascii "02"))).lastJob.base.height = 1 := by
  refine ⟨?_, by decide +kernel, by decide +kernel⟩
  intro h
  have hn := noFall_of_currentOnly
    (sameHeight_getFirstJob txHashes (templateAt 2 (ascii "01"))) h.2
  have hnew : (getFirstJob txHashes (templateAt 2 (ascii "01"))).lastJob.same
      (Job.make txHashes 1 (templateAt 1 (ascii "02")) false) = false := by decide +kernel
  exact hn rfl (by decide) (fun _ => hnew)

end JobManager

/-! ## Shares for the current height -/

/-- Where only jobs of the current height are found, a share answered OK is for one. -/
theorem ok_share_current {R : Type} {env : Env R} {srv : Server p R} {cli : StratumClient}
    {share : Share p} {call : Call} (hcur : srv.jobManager.CurrentOnly)
    (hok : (handleShare env srv cli share call).result.code = .OK) :
    ∃ job, srv.jobManager.getJob share.jobId = some job ∧
      job.base.height = srv.jobManager.lastJob.base.height := by
  have ha : Accepted env srv cli share call := by
    by_contra hna
    exact (handleShare_rejected hna).1.error hok
  obtain ⟨-, job, hj, -, -⟩ := ha
  exact ⟨job, hj, hcur _ _ hj⟩

end SickPool.Jobs
