import SickPool.Jobs.Job
import SickPool.Persistence.Schema

/-!
# The job manager

`JobManager` after `GetFirstJob`, so that there is always a last job. A clean job takes
the place of all others; any other job is put behind them.
-/
namespace SickPool.Jobs

open SickPool.Library SickPool.Utils SickPool.Crypto SickPool.Persistence

variable {p : StratumProtocol}

@[simp] theorem Job.make_height (hashes : Hashes) (count : Nat) (res : BlockTemplateRes p)
    (clean : Bool) : (Job.make hashes count res clean).base.height = res.height := by
  cases p <;> rfl

theorem Job.make_clean (hashes : Hashes) (count : Nat) (res : BlockTemplateRes p) (clean : Bool) :
    (Job.make hashes count res clean).base.clean = (decide (p = .ZEC) || clean) := by
  cases p with
  | ZEC => rfl
  | CN => exact (Bool.false_or clean).symm

theorem Job.make_id_zec (hashes : Hashes) (count : Nat) (res : BlockTemplateRes .ZEC)
    (clean : Bool) : (Job.make hashes count res clean).base.id = fmtHex 8 count := rfl

structure JobManager (p : StratumProtocol) where
  jobCount : Nat
  lastJob : Job p
  jobs : List (Job p)

namespace JobManager

def getJob (jm : JobManager p) (hexId : Bytes) : Option (Job p) :=
  jm.jobs.find? (fun job => decide (job.base.id = hexId))

def setNewJob (jm : JobManager p) (job : Job p) : JobManager p where
  jobCount := (jm.jobCount + 1) % uint32Size
  lastJob := job
  jobs := (if job.base.clean then [] else jm.jobs) ++ [job]

def getFirstJob (hashes : Hashes) (res : BlockTemplateRes p) : JobManager p where
  jobCount := 1
  lastJob := Job.make hashes 0 res true
  jobs := [Job.make hashes 0 res true]

/-- `GetNewJob` on a template: no job when the template repeats the last one. -/
def getNewJob (hashes : Hashes) (jm : JobManager p) (rpctemplate : BlockTemplateRes p) :
    JobManager p × Option (Job p) :=
  let clean := decide (jm.lastJob.base.height < rpctemplate.height)
  let newJob := Job.make hashes jm.jobCount rpctemplate clean
  if clean = false ∧ jm.lastJob.same newJob = true then (jm, none)
  else (jm.setNewJob newJob, some newJob)

theorem getNewJob_jobs (hashes : Hashes) (jm : JobManager p) (rpctemplate : BlockTemplateRes p) :
    (jm.getNewJob hashes rpctemplate).1 =
      (jm.getNewJob hashes rpctemplate).2.elim jm jm.setNewJob := by
  simp only [getNewJob]
  split <;> rfl

/-- A job found stays found while jobs are put behind it. -/
theorem getJob_setNewJob {jm : JobManager p} {job found : Job p} {id : Bytes}
    (hc : job.base.clean = false) (h : jm.getJob id = some found) :
    (jm.setNewJob job).getJob id = some found := by
  unfold getJob at h ⊢
  simp [setNewJob, hc, List.find?_append, h]

theorem getJob_setNewJob_clean {jm : JobManager p} {job found : Job p} {id : Bytes}
    (hc : job.base.clean = true) (h : (jm.setNewJob job).getJob id = some found) :
    found = job ∧ job.base.id = id := by
  unfold getJob at h
  simp only [setNewJob, hc, ↓reduceIte, List.nil_append] at h
  have hid := List.find?_some h
  have hmem := List.mem_of_find?_eq_some h
  rw [List.mem_singleton] at hmem
  exact ⟨hmem, hmem ▸ of_decide_eq_true hid⟩

/-- An id is known after `SetNewJob` when it was known before or is that of the new job. -/
theorem isSome_getJob_setNewJob {jm : JobManager p} {job : Job p} {id : Bytes}
    (h : ((jm.setNewJob job).getJob id).isSome) : (jm.getJob id).isSome ∨ job.base.id = id := by
  cases hc : job.base.clean with
  | true =>
    obtain ⟨found, hf⟩ := Option.isSome_iff_exists.mp h
    exact .inr (getJob_setNewJob_clean hc hf).2
  | false =>
    unfold getJob at h ⊢
    simp only [setNewJob, hc, Bool.false_eq_true, ↓reduceIte, List.find?_append, Option.isSome_or,
      Bool.or_eq_true] at h
    rcases h with h | h
    · exact .inl h
    · simp only [List.find?_singleton, Option.isSome_ite, decide_eq_true_eq] at h
      exact .inr h

/-- A template is accepted unless it is of no greater height and repeats the last job. -/
def accepts (hashes : Hashes) (jm : JobManager p) (template : BlockTemplateRes p) : Prop :=
  template.height ≤ jm.lastJob.base.height →
    jm.lastJob.same (Job.make hashes jm.jobCount template false) = false

/-- What `GetNewJob` can do: nothing, or `SetNewJob` with the job of the template. -/
theorem getNewJob_cases (hashes : Hashes) (jm : JobManager p) (template : BlockTemplateRes p) :
    (¬ jm.accepts hashes template ∧ jm.getNewJob hashes template = (jm, none)) ∨
      ∃ job, jm.accepts hashes template ∧ jm.getNewJob hashes template = (jm.setNewJob job, some job) ∧
        job = Job.make hashes jm.jobCount template
          (decide (jm.lastJob.base.height < template.height)) := by
  unfold accepts getNewJob
  by_cases hlt : jm.lastJob.base.height < template.height
  · have hle : ¬ template.height ≤ jm.lastJob.base.height := Nat.not_le.mpr hlt
    exact .inr ⟨_, fun h => absurd h hle, by simp [hlt], rfl⟩
  · have hle : template.height ≤ jm.lastJob.base.height := Nat.not_lt.mp hlt
    cases hs : jm.lastJob.same (Job.make hashes jm.jobCount template false) with
    | true => exact .inl ⟨fun h => by simpa using h hle, by simp [hlt, hs]⟩
    | false => exact .inr ⟨_, fun _ => rfl, by simp [hlt, hs], rfl⟩

theorem mem_of_getJob {jm : JobManager p} {id : Bytes} {found : Job p} (h : jm.getJob id = some found) :
    found ∈ jm.jobs ∧ found.base.id = id :=
  ⟨List.mem_of_find?_eq_some h,
    of_decide_eq_true (List.find?_some (p := fun job : Job p => decide (job.base.id = id)) h)⟩

theorem getJob_of_mem {jm : JobManager p} {job : Job p} (h : job ∈ jm.jobs) :
    ∃ found, jm.getJob job.base.id = some found ∧ found.base.id = job.base.id := by
  obtain ⟨found, hf⟩ := Option.isSome_iff_exists.mp
    (List.find?_isSome.mpr ⟨job, h, decide_eq_true rfl⟩ : (jm.getJob job.base.id).isSome)
  exact ⟨found, hf, (mem_of_getJob hf).2⟩

/-- The oldest job is found under its id. -/
theorem getJob_head {jm : JobManager p} {job : Job p} {rest : List (Job p)} (h : jm.jobs = job :: rest) :
    jm.getJob job.base.id = some job := by
  simp [getJob, h]

@[simp] theorem setNewJob_lastJob (jm : JobManager p) (job : Job p) :
    (jm.setNewJob job).lastJob = job := rfl

theorem getLast?_setNewJob (jm : JobManager p) (job : Job p) :
    (jm.setNewJob job).jobs.getLast? = some job := by
  simp [setNewJob]

theorem mem_setNewJob {jm : JobManager p} {job other : Job p} (h : other ∈ (jm.setNewJob job).jobs) :
    other = job ∨ (job.base.clean = false ∧ other ∈ jm.jobs) := by
  cases hc : job.base.clean with
  | true => exact .inl (by simpa [setNewJob, hc] using h)
  | false =>
    simp only [setNewJob, hc, Bool.false_eq_true, ↓reduceIte, List.mem_append,
      List.mem_singleton] at h
    exact h.elim (fun h => .inr ⟨rfl, h⟩) .inl

end JobManager
end SickPool.Jobs
