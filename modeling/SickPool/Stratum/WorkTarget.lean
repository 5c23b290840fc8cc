import SickPool.Library.Run
import SickPool.Stratum.HandleShare
import SickPool.Stratum.Messages
import SickPool.Stratum.System

/-!
# The target of a CN client

A CN miner learns its difficulty from the work messages. `HandleNewJob` reads the pending
difficulty for the message and lets `ActivatePendingDiff` read it a second time, after the
message was sent. A worker thread may replace it in between, and may answer an `eth_getWork`
with the difficulty that is about to end.
-/
namespace SickPool.Stratum

open SickPool.Library SickPool.Library.Bytes SickPool.Library.Run SickPool.Jobs SickPool.Stats

/-- A work message: the request it answers, the difficulty encoded in its target, and its
text. -/
structure Work where
  id : Option Int
  diff : Double
  msg : Option Bytes
  deriving DecidableEq

/-- Where the control thread is with the client: behind `GetPendingDifficulty`, with what it
found and the difficulty for the message, or behind `BroadcastJob`, with a difficulty to
activate. -/
inductive ControlPhase where
  | idle
  | read (job : JobCn) (newDiff : Option Double) (diff : Double)
  | broadcast (newDiff : Double)

/-- A client, the control thread, the work messages sent and the difficulties activated. -/
structure WorkChannel where
  client : StratumClient
  phase : ControlPhase
  sent : List Work
  activated : List Double

/-- The atomic steps: a login, a retarget and an `eth_getWork` on worker threads, and the three
of the control thread. -/
inductive WorkEvent where
  | authorizeWorker (fullId : FullId) (workerName : Bytes) (workerIt : Nat)
  | setPendingDifficulty (diff : Double) (curtime : Nat)
  | getWork (job : JobCn) (id : Int)
  | getPendingDifficulty (job : JobCn)
  | broadcastJob
  | activatePendingDiff

namespace WorkChannel

def start (cli : StratumClient) : WorkChannel := ⟨cli, .idle, [], []⟩

/-- `BroadcastJob`, in both its forms. -/
def send (confs : StaticConf) (s : WorkChannel) (job : JobCn) (diff : Double)
    (id : Option Int) : WorkChannel :=
  { s with sent := s.sent ++ [⟨id, diff, getWorkMessage confs job diff id⟩] }

/-- One step; one of the control thread at another place does nothing. -/
def step (confs : StaticConf) (s : WorkChannel) : WorkEvent → WorkChannel
  | .authorizeWorker fullId workerName workerIt =>
    { s with client := s.client.authorizeWorker fullId workerName workerIt }
  | .setPendingDifficulty diff curtime =>
    { s with client := s.client.setPendingDifficulty diff curtime }
  | .getWork job id => s.send confs job s.client.currentDiff (some id)
  | .getPendingDifficulty job => match s.phase with
    | .idle =>
      let diff := s.client.pendingDiff.getD s.client.currentDiff
      if s.client.getHasAuthorized then { s with phase := .read job s.client.pendingDiff diff }
      else s
    | _ => s
  | .broadcastJob => match s.phase with
    | .read job newDiff diff => { s.send confs job diff none with
        phase := newDiff.elim .idle .broadcast }
    | _ => s
  | .activatePendingDiff => match s.phase with
    | .broadcast _ =>
      { s with
        client := s.client.activatePendingDiff
        phase := .idle
        activated := s.activated ++ [s.client.activatePendingDiff.currentDiff] }
    | _ => s

/-- A client that was processed was last sent its current difficulty. -/
def Agrees (s : WorkChannel) : Prop :=
  match s.phase with
  | .idle => ∀ w ∈ s.sent.getLast?, w.diff = s.client.currentDiff
  | _ => True

/-- Every difficulty that was activated has been in a message. -/
def AllAnnounced (s : WorkChannel) : Prop := ∀ diff ∈ s.activated, ∃ w ∈ s.sent, w.diff = diff

/-- A difficulty to activate is still the one that was read; behind an answer to `eth_getWork`
it is the current one. -/
def NotReplaced (s : WorkChannel) : WorkEvent → Prop
  | .activatePendingDiff => match s.phase with
    | .broadcast newDiff => ∀ w ∈ s.sent.getLast?,
        s.client.pendingDiff = some (if w.id = none then newDiff else s.client.currentDiff)
    | _ => True
  | _ => True

/-- What the control thread knows between its steps. -/
def Located (s : WorkChannel) : Prop :=
  match s.phase with
  | .idle => ∀ w ∈ s.sent.getLast?, w.diff = s.client.currentDiff
  | .read _ newDiff diff => diff = newDiff.getD s.client.currentDiff ∧
      (newDiff.isSome → s.client.pendingDiff.isSome)
  | .broadcast newDiff => s.client.pendingDiff.isSome ∧
      ∃ w, s.sent.getLast? = some w ∧
        w.diff = if w.id = none then newDiff else s.client.currentDiff

section Steps

variable {confs : StaticConf} {s : WorkChannel}

/-- With nothing between them, the steps of the control thread are the visit of the client in
the first loop of `HandleNewJob`. -/
theorem uninterrupted (job : JobCn) (hp : s.phase = .idle) :
    (run (step confs) s [.getPendingDifficulty job, .broadcastJob, .activatePendingDiff]).client =
      System.broadcastJob s.client := by
  by_cases hauth : s.client.getHasAuthorized = true
  · cases hpending : s.client.pendingDiff with
    | none => simp [step, hp, hauth, hpending, send, System.broadcastJob]
    | some diff => simp [step, hp, hauth, hpending, send, System.broadcastJob]
  · simp [step, hp, hauth, System.broadcastJob]

/-- A message carries the current difficulty when it answers `eth_getWork`, so it leaves the
control thread where it was. -/
theorem send_located (job : JobCn) (id : Int) (h : s.Located) :
    (s.send confs job s.client.currentDiff (some id)).Located := by
  unfold Located send at *
  cases hp : s.phase with
  | idle => simp
  | read job newDiff diff => simpa [hp] using h
  | broadcast newDiff =>
    simp only [hp] at h
    simp [h.1]

theorem setPendingDifficulty_located (diff : Double) (curtime : Nat) (h : s.Located) :
    ({ s with client := s.client.setPendingDifficulty diff curtime } : WorkChannel).Located := by
  unfold Located StratumClient.setPendingDifficulty at *
  cases hp : s.phase with
  | idle => simpa [hp] using h
  | read job newDiff diff' =>
    simp only [hp] at h
    exact ⟨h.1, fun _ => rfl⟩
  | broadcast newDiff =>
    simp only [hp] at h
    exact ⟨rfl, h.2⟩

/-- What takes effect is the difficulty of the last message exactly if it was not replaced. -/
theorem activated_iff {newDiff : Double} {w : Work} (hp : s.client.pendingDiff.isSome)
    (hw : w.diff = if w.id = none then newDiff else s.client.currentDiff) :
    w.diff = s.client.activatePendingDiff.currentDiff ↔
      s.client.pendingDiff = some (if w.id = none then newDiff else s.client.currentDiff) := by
  obtain ⟨diff, hdiff⟩ := Option.isSome_iff_exists.mp hp
  rw [← hw, hdiff]
  simp [StratumClient.activatePendingDiff, hdiff, eq_comm]

theorem Located.agrees (h : s.Located) : s.Agrees := by
  unfold Located Agrees at *
  cases hp : s.phase with
  | idle => simpa only [hp] using h
  | read job newDiff diff => trivial
  | broadcast newDiff => trivial

/-- The activation ends with the client sent its difficulty exactly if that was not replaced. -/
theorem activatePendingDiff_agrees_iff (h : s.Located) {newDiff : Double}
    (hp : s.phase = .broadcast newDiff) :
    Agrees (step confs s .activatePendingDiff) ↔ NotReplaced s .activatePendingDiff := by
  simp only [Located, hp] at h
  obtain ⟨hpending, w, hlast, hw⟩ := h
  simp only [Agrees, step, hp, NotReplaced, hlast, Option.mem_def, Option.some.injEq, forall_eq']
  exact activated_iff hpending hw

theorem step_located (h : s.Located) (e : WorkEvent) (hok : NotReplaced s e) :
    (step confs s e).Located := by
  cases e with
  | authorizeWorker fullId workerName workerIt => exact h
  | setPendingDifficulty diff curtime => exact setPendingDifficulty_located diff curtime h
  | getWork job id => exact send_located job id h
  | getPendingDifficulty job =>
    cases hp : s.phase with
    | idle =>
      by_cases hauth : s.client.getHasAuthorized = true
      · simp [step, hp, hauth, Located]
      · simpa [step, hp, hauth] using h
    | read job newDiff diff => simpa only [step, hp] using h
    | broadcast newDiff => simpa only [step, hp] using h
  | broadcastJob =>
    cases hp : s.phase with
    | idle => simpa only [step, hp] using h
    | read job newDiff diff =>
      simp only [Located, hp] at h
      obtain ⟨rfl, hpending⟩ := h
      cases newDiff with
      | none => simp [step, hp, Located, send]
      | some diff => simpa [step, hp, Located, send] using hpending
    | broadcast newDiff => simpa only [step, hp] using h
  | activatePendingDiff =>
    cases hp : s.phase with
    | idle => simpa only [step, hp] using h
    | read job newDiff diff => simpa only [step, hp] using h
    | broadcast newDiff =>
      have hagrees : (step confs s .activatePendingDiff).Agrees :=
        (activatePendingDiff_agrees_iff h hp).mpr hok
      simp only [Agrees, step, hp] at hagrees
      simp only [Located, step, hp]
      exact hagrees

theorem step_notReplaced (h : s.Located) (e : WorkEvent)
    (hagrees : (step confs s e).Agrees) : NotReplaced s e := by
  cases e with
  | activatePendingDiff =>
    cases hp : s.phase with
    | broadcast newDiff => exact (activatePendingDiff_agrees_iff h hp).mp hagrees
    | idle => simp only [NotReplaced, hp]
    | read job newDiff diff => simp only [NotReplaced, hp]
  | _ => trivial

/-- Messages are not taken back, and what is activated is the difficulty of the last one. -/
theorem step_allAnnounced (h : s.Located) (ha : s.AllAnnounced) (e : WorkEvent)
    (hok : NotReplaced s e) : (step confs s e).AllAnnounced := by
  have hsend : ∀ job diff id, (s.send confs job diff id).AllAnnounced := by
    intro job diff id d hd
    obtain ⟨w, hw, rfl⟩ := ha d hd
    exact ⟨w, List.mem_append_left _ hw, rfl⟩
  cases e with
  | authorizeWorker fullId workerName workerIt => exact ha
  | setPendingDifficulty diff curtime => exact ha
  | getWork job id => exact hsend _ _ _
  | getPendingDifficulty job =>
    simp only [step]
    split
    · split
      · exact ha
      · exact ha
    · exact ha
  | broadcastJob =>
    simp only [step]
    split
    · exact hsend _ _ _
    · exact ha
  | activatePendingDiff =>
    cases hp : s.phase with
    | idle => simpa only [step, hp] using ha
    | read job newDiff diff => simpa only [step, hp] using ha
    | broadcast newDiff =>
      have hagrees : (step confs s .activatePendingDiff).Agrees :=
        (activatePendingDiff_agrees_iff h hp).mpr hok
      simp only [Located, hp] at h
      obtain ⟨-, w, hlast, -⟩ := h
      simp only [Agrees, step, hp, hlast, Option.mem_def, Option.some.injEq, forall_eq'] at hagrees
      intro d hd
      simp only [step, hp] at hd ⊢
      rcases List.mem_append.mp hd with hd | hd
      · exact ha d hd
      · exact ⟨w, List.mem_of_getLast? hlast, (List.mem_singleton.mp hd) ▸ hagrees⟩

end Steps

/-- **Announced and enforced difficulty (CN).** In every state of an interleaving a client
that was processed was last sent its current difficulty and no difficulty was activated that
was in no message, exactly if at every activation the pending difficulty is still the one that
was read for the message, or the current one behind an answer to `eth_getWork`. -/
theorem work_announced_iff (confs : StaticConf) (cli : StratumClient) (events : List WorkEvent) :
    Always (step confs) (fun s => s.Agrees ∧ s.AllAnnounced) (start cli) events ↔
      Guarded (step confs) NotReplaced (start cli) events := by
  have h0 : (start cli).Located ∧ (start cli).AllAnnounced :=
    ⟨by simp [Located, start], by simp [AllAnnounced, start]⟩
  exact always_iff_guarded_of_invariant (I := fun s => s.Located ∧ s.AllAnnounced)
    (fun _ h => ⟨h.1.agrees, h.2⟩)
    (fun _ e h hok => ⟨step_located h.1 e hok, step_allAnnounced h.1 h.2 e hok⟩)
    (fun _ e h hstep => step_notReplaced h.1 e hstep.1) h0 events

/-! ## A difficulty that is replaced -/

/-- The pending difficulty 2 is announced; before it is activated, a worker thread sets 4. -/
def replacedEvents : List WorkEvent :=
  [.setPendingDifficulty 2 1000,
    .getPendingDifficulty (JobCn.new (constHashes maxHash) sampleTemplate true), .broadcastJob,
    .setPendingDifficulty 4 2000, .activatePendingDiff]

def replaced : WorkChannel := run (step zanoStatic) (start sampleClient) replacedEvents

/-- The client has the difficulty 4, which was never announced. -/
theorem replaced_difficulty_activated :
    replaced.sent.map (·.diff) = [2] ∧ replaced.activated = [4] ∧
      replaced.client.currentDiff = 4 ∧ ¬ replaced.Agrees ∧ ¬ replaced.AllAnnounced := by
  have hsent : replaced.sent.map (·.diff) = [2] := by decide +kernel
  have hdiff : replaced.client.currentDiff = 4 := by decide +kernel
  refine ⟨hsent, by decide +kernel, hdiff, fun h => ?_, fun h => ?_⟩
  · have hidle : replaced.phase = .idle := rfl
    have hlast : replaced.sent.getLast?.map (·.diff) = some 2 := by decide +kernel
    obtain ⟨w, hw, hwdiff⟩ := Option.map_eq_some_iff.mp hlast
    simp only [Agrees, hidle] at h
    have hboth := (hwdiff.symm.trans (h w hw)).trans hdiff
    exact absurd hboth (by decide +kernel)
  · obtain ⟨w, hw, hwdiff⟩ := h 4 (by decide +kernel)
    have hmem := List.mem_map_of_mem (f := Work.diff) hw
    rw [hsent, hwdiff] at hmem
    exact absurd hmem (by decide +kernel)

end WorkChannel
end SickPool.Stratum
