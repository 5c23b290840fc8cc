import SickPool.Stratum.Messages
import SickPool.Stratum.SystemSteps

/-!
# The target of a ZEC client

A ZEC miner learns its difficulty from `mining.set_target`. `HandleNewJob` lets a pending
difficulty take effect, but `UpdateDifficulty` is called before that and reads the current
difficulty itself, so the miner is told the one that is about to end.
-/
namespace SickPool.Stratum

open SickPool.Library SickPool.Library.Bytes SickPool.Library.Run SickPool.Jobs SickPool.Shares
open SickPool.Persistence SickPool.Utils

variable {R : Type}

/-- The server, one client and what was sent to it. `blocked` is `HandleNewJob` waiting for
its own lock; that call does not complete. -/
structure Connection (R : Type) where
  server : Server .ZEC R
  client : StratumClient
  sent : List Message
  blocked : Bool

/-- Requests with their id, and the two ways to `HandleNewJob`. -/
inductive ConnectionEvent where
  | authorize (id : Int) (params : Params) (time curtime : Nat)
  | submit (id : Int) (params : Params) (uninitialised : Nat) (call : Call)
  | blockNotify (rpctemplate : BlockTemplateResVrsc)
  | newJob

namespace Connection

def start (srv : Server .ZEC R) (old : Uninitialised) (extraNonce time : Nat)
    (diff rate : Double) (retargetInterval : Nat) : Connection R :=
  ⟨srv, StratumClient.new old extraNonce time diff rate retargetInterval, [], false⟩

/-- `UpdateDifficulty`; past the end of its array nothing is known of the message. -/
def updateDifficulty (confs : StaticConf) (cli : StratumClient) : List Message :=
  ((getDifficultyHex confs cli.currentDiff).map (fun target =>
    Message.setTarget (setTargetMessage target))).toList

/-- `BroadcastJob`, which does not use its difficulty. -/
def broadcastJob (_diff : Double) (job : JobZec) : Message := .notify job.notifyMsg

/-- `mining.authorize` in `HandleReq`. -/
def authorize (confs : StaticConf) (env : Env R) (s : Connection R) (id : Int) (params : Params)
    (time curtime : Nat) : Connection R :=
  let o := handleAuthorizeZec env s.server s.client params time curtime
  { s with
    server := o.server
    client := o.client
    sent := s.sent ++ .res (resMessage id o.result) ::
      if o.result.code = .OK then
        updateDifficulty confs o.client ++ [broadcastJob 0 o.server.jobManager.lastJob]
      else [] }

/-- `mining.submit` in `HandleReq`; a read through a null pointer ends the run. -/
def submit (env : Env R) (s : Connection R) (id : Int) (params : Params) (uninitialised : Nat)
    (call : Call) : Connection R :=
  match handleSubmitZec env s.server s.client params uninitialised call with
  | some o =>
    { s with
      server := o.server
      client := o.client
      sent := s.sent ++ [.res (resMessage id o.result)] }
  | none => { s with blocked := true }

/-- The client in the first loop of `HandleNewJob`. -/
def announceJob (confs : StaticConf) (s : Connection R) (job : JobZec) : Connection R :=
  if s.client.getHasAuthorized then
    match s.client.pendingDiff with
    | some diff =>
      { s with
        sent := s.sent ++ updateDifficulty confs s.client ++ [broadcastJob diff job]
        client := s.client.activatePendingDiff }
    | none => { s with sent := s.sent ++ [broadcastJob s.client.currentDiff job] }
  else s

/-- The client in the other two loops: kicked, or with a new share set. -/
def sweepAndReset (env : Env R) (s : Connection R) (job : JobZec) : Connection R :=
  if s.client.currentDiff < env.config.minimumDiff then
    { s with
      server := { s.server with
        statsManager := s.server.statsManager.popWorker s.client.statsIt }
      blocked := true }
  else if job.clean then
    { s with
      server := { s.server with
        store := env.layer.setNewBlockStats s.server.store env.config.symbol job.height
          job.targetDiff }
      client := s.client.resetShareSet }
  else s

def handleNewJob (confs : StaticConf) (env : Env R) (s : Connection R) (job : JobZec) :
    Connection R :=
  (s.announceJob confs job).sweepAndReset env job

def handleBlockNotify (confs : StaticConf) (env : Env R) (s : Connection R)
    (rpctemplate : BlockTemplateResVrsc) : Connection R :=
  match s.server.jobManager.getNewJob env.hashes rpctemplate with
  | (jm, some job) => { s with server := { s.server with jobManager := jm } }.handleNewJob confs
      env job
  | (_, none) => s

/-- One event. Behind a call that does not complete there is none. -/
def step (confs : StaticConf) (env : Env R) (s : Connection R) (e : ConnectionEvent) :
    Connection R :=
  if s.blocked then s
  else match e with
    | .authorize id params time curtime => s.authorize confs env id params time curtime
    | .submit id params uninitialised call => s.submit env id params uninitialised call
    | .blockNotify rpctemplate => s.handleBlockNotify confs env rpctemplate
    | .newJob => s.handleNewJob confs env s.server.jobManager.lastJob

/-- The last `mining.set_target` sent. -/
def lastTarget (s : Connection R) : Option Bytes := (s.sent.filterMap Message.target?).getLast?

/-- An authorised client was last told the target of its current difficulty. -/
def Announced (confs : StaticConf) (s : Connection R) : Prop :=
  s.blocked = false → s.client.getHasAuthorized = true →
    ∃ target, getDifficultyHex confs s.client.currentDiff = some target ∧
      s.lastTarget = some (setTargetMessage target)

/-- No pending difficulty takes effect that has another target than the current one. -/
def SameTarget (confs : StaticConf) (env : Env R) (s : Connection R) : Prop :=
  s.client.getHasAuthorized = true → ∀ diff ∈ s.client.pendingDiff,
    ¬ diff < env.config.minimumDiff →
      getDifficultyHex confs diff = getDifficultyHex confs s.client.currentDiff

/-- A login answered `OK` finds a difficulty with a target of 32 bytes, and `HandleNewJob` no
difficulty that changes the target. -/
def KeepsTarget (confs : StaticConf) (env : Env R) (s : Connection R) (e : ConnectionEvent) :
    Prop :=
  s.blocked = false → match e with
    | .authorize _ params time curtime =>
      (handleAuthorizeZec env s.server s.client params time curtime).result.code = .OK →
        (getDifficultyHex confs s.client.currentDiff).isSome
    | .submit _ _ _ _ => True
    | .blockNotify rpctemplate =>
      (s.server.jobManager.getNewJob (p := .ZEC) env.hashes rpctemplate).2.isSome →
        s.SameTarget confs env
    | .newJob => s.SameTarget confs env

/-! ## One event -/

section Steps

variable {confs : StaticConf} {env : Env R} {s s' : Connection R}

theorem Announced.of_eq (hs : s.Announced confs) (hb : s'.blocked = s.blocked)
    (ha : s'.client.authorizedWorkers = s.client.authorizedWorkers)
    (hd : s'.client.currentDiff = s.client.currentDiff) (ht : s'.lastTarget = s.lastTarget) :
    s'.Announced confs := by
  unfold Announced StratumClient.getHasAuthorized at *
  rw [hb, ha, hd, ht]
  exact hs

theorem setTargetMessage_inj {a b : Bytes} : setTargetMessage a = setTargetMessage b ↔ a = b := by
  simp [setTargetMessage]

/-- `UpdateDifficulty` leaves the target of the current difficulty as the last one. -/
theorem lastTarget_updateDifficulty {cli : StratumClient} {target : Bytes}
    (before after : List Message) (h : getDifficultyHex confs cli.currentDiff = some target)
    (hafter : after.filterMap Message.target? = []) :
    ((before ++ updateDifficulty confs cli ++ after).filterMap Message.target?).getLast? =
      some (setTargetMessage target) := by
  simp [updateDifficulty, h, hafter, Message.target?]

/-- A login answered `OK` announces the current difficulty, any other changes nothing. -/
theorem authorize_announced (id : Int) (params : Params) (time curtime : Nat)
    (hs : s.Announced confs) (hb : s.blocked = false) :
    (s.authorize confs env id params time curtime).Announced confs ↔
      ((handleAuthorizeZec env s.server s.client params time curtime).result.code = .OK →
        (getDifficultyHex confs s.client.currentDiff).isSome) := by
  obtain ⟨name, ⟨-, ⟨hok, fid, it, hcli⟩ | ⟨hdenied, hcli⟩⟩, -⟩ :=
    handleLogin_answers (p := .ZEC) env s.server s.client [] params time curtime
  · simp only [handleLogin] at hok hcli
    have hdiff : (s.authorize confs env id params time curtime).client.currentDiff =
        s.client.currentDiff := by
      simp only [authorize, hcli]
      rfl
    have hauth : (s.authorize confs env id params time curtime).client.getHasAuthorized = true :=
      (congrArg StratumClient.getHasAuthorized hcli).trans
        (StratumClient.authorizeWorker_getHasAuthorized _ _ _ _)
    rw [Announced, hdiff]
    refine ⟨fun h _ => ?_, fun h _ _ => ?_⟩
    · obtain ⟨target, ht, -⟩ := h hb hauth
      exact Option.isSome_iff_exists.mpr ⟨target, ht⟩
    · obtain ⟨target, ht⟩ := Option.isSome_iff_exists.mp (h hok)
      refine ⟨target, ht, ?_⟩
      simp only [lastTarget, authorize, hok, ↓reduceIte]
      rw [List.append_cons, ← List.append_assoc]
      exact lastTarget_updateDifficulty _ _ (hdiff ▸ ht) rfl
  · simp only [handleLogin] at hdenied hcli
    refine iff_of_true (hs.of_eq rfl ?_ ?_ ?_) (fun hok => absurd hok hdenied)
    · exact congrArg StratumClient.authorizedWorkers hcli
    · exact congrArg StratumClient.currentDiff hcli
    · simp [lastTarget, authorize, hdenied, Message.target?]

theorem handleSubmitZec_client {srv : Server .ZEC R} {cli : StratumClient} {params : Params}
    {uninitialised : Nat} {call : Call} {o : Outcome .ZEC R}
    (h : handleSubmitZec env srv cli params uninitialised call = some o) :
    o.client.authorizedWorkers = cli.authorizedWorkers ∧ o.client.currentDiff = cli.currentDiff := by
  unfold handleSubmitZec at h
  split at h
  · obtain rfl := Option.some.inj h
    exact ⟨rfl, rfl⟩
  · rename_i share _
    split at h
    · cases h
    · obtain rfl := Option.some.inj h
      obtain ⟨_, _, _, _, _, hcli⟩ := handleShare_client (p := .ZEC) env srv cli share call
      rw [hcli]
      exact ⟨rfl, rfl⟩

theorem submit_announced (id : Int) (params : Params) (uninitialised : Nat) (call : Call)
    (hs : s.Announced confs) :
    (s.submit env id params uninitialised call).Announced confs := by
  unfold submit
  cases ho : handleSubmitZec env s.server s.client params uninitialised call with
  | none => exact fun hb => nomatch hb
  | some o =>
    obtain ⟨hworkers, hdiff⟩ := handleSubmitZec_client ho
    refine hs.of_eq rfl hworkers hdiff ?_
    simp [lastTarget, Message.target?]

/-- A client that is kicked ends the run; the reset leaves its difficulty alone. -/
theorem sweepAndReset_announced (job : JobZec) :
    (s.sweepAndReset env job).Announced confs ↔
      (¬ s.client.currentDiff < env.config.minimumDiff → s.Announced confs) := by
  unfold sweepAndReset
  by_cases hlow : s.client.currentDiff < env.config.minimumDiff
  · simp [hlow, Announced]
  · rw [if_neg hlow, forall_prop_of_true hlow]
    split
    · exact Iff.rfl
    · exact Iff.rfl

/-- The first loop is that of the system, with its messages. -/
theorem announceJob_client (job : JobZec) :
    (s.announceJob confs job).client = System.broadcastJob s.client := by
  unfold announceJob System.broadcastJob
  by_cases hauth : s.client.getHasAuthorized = true
  · cases hp : s.client.pendingDiff <;> simp [hauth]
  · simp [hauth]

theorem announceJob_currentDiff (job : JobZec) {diff : Double}
    (hauth : s.client.getHasAuthorized = true) (hp : s.client.pendingDiff = some diff) :
    (s.announceJob confs job).client.currentDiff = diff := by
  rw [announceJob_client]
  simp [System.broadcastJob, hauth, hp, StratumClient.activatePendingDiff]

/-- The first loop announces the difficulty that ends. -/
theorem announceJob_announced (job : JobZec) (hs : s.Announced confs) (hb : s.blocked = false) :
    (s.announceJob confs job).Announced confs ↔
      (s.client.getHasAuthorized = true → ∀ diff ∈ s.client.pendingDiff,
        getDifficultyHex confs diff = getDifficultyHex confs s.client.currentDiff) := by
  by_cases hauth : s.client.getHasAuthorized = true
  · cases hp : s.client.pendingDiff with
    | none =>
      refine iff_of_true (hs.of_eq ?_ ?_ ?_ ?_) (by simp) <;>
        simp [announceJob, hauth, hp, lastTarget, broadcastJob, Message.target?]
    | some diff =>
      obtain ⟨target, ht, -⟩ := hs hb hauth
      have hlast : (s.announceJob confs job).lastTarget = some (setTargetMessage target) := by
        simp only [announceJob, hauth, ↓reduceIte, hp, lastTarget]
        exact lastTarget_updateDifficulty _ _ ht rfl
      have hdiff : (s.announceJob confs job).client.currentDiff = diff :=
        announceJob_currentDiff job hauth hp
      have hauth' : (s.announceJob confs job).client.getHasAuthorized = true := by
        simp only [announceJob, hauth, ↓reduceIte, hp]
        exact hauth
      have hb' : (s.announceJob confs job).blocked = false := by
        simpa [announceJob, hauth, hp] using hb
      simp only [Announced, hb', hauth', hdiff, hlast, ht, hauth, Option.mem_def,
        Option.some.injEq, setTargetMessage_inj, forall_const, forall_eq']
      exact ⟨fun ⟨_, h, he⟩ => he ▸ h, fun h => ⟨target, h, rfl⟩⟩
  · have hsame : s.announceJob confs job = s := if_neg hauth
    rw [hsame]
    exact iff_of_true hs (fun h => absurd h hauth)

theorem handleNewJob_announced (job : JobZec) (hs : s.Announced confs) (hb : s.blocked = false) :
    (s.handleNewJob confs env job).Announced confs ↔ s.SameTarget confs env := by
  rw [handleNewJob, sweepAndReset_announced, announceJob_announced job hs hb]
  constructor
  · intro h hauth diff hp hlow
    rw [announceJob_currentDiff job hauth hp] at h
    exact h hlow hauth diff hp
  · intro h hlow hauth diff hp
    rw [announceJob_currentDiff job hauth hp] at hlow
    exact h hauth diff hp hlow

/-- A template that gives no new job changes nothing. -/
theorem handleBlockNotify_announced (rpctemplate : BlockTemplateResVrsc) (hs : s.Announced confs)
    (hb : s.blocked = false) :
    (s.handleBlockNotify confs env rpctemplate).Announced confs ↔
      ((s.server.jobManager.getNewJob (p := .ZEC) env.hashes rpctemplate).2.isSome →
        s.SameTarget confs env) := by
  unfold handleBlockNotify
  split
  · rename_i jm job hjob
    rw [hjob]
    exact (handleNewJob_announced (s := { s with server := { s.server with jobManager := jm } })
      job hs hb).trans ⟨fun h _ => h, fun h => h rfl⟩
  · rename_i jm hjob
    rw [hjob]
    exact iff_of_true hs (fun h => by cases h)

theorem step_announced (e : ConnectionEvent) (hs : s.Announced confs) :
    (step confs env s e).Announced confs ↔ KeepsTarget confs env s e := by
  unfold step KeepsTarget
  cases hb : s.blocked with
  | true => simp [hs]
  | false =>
    simp only [Bool.false_eq_true, ↓reduceIte, forall_const]
    cases e with
    | authorize id params time curtime => exact authorize_announced id params time curtime hs hb
    | submit id params uninitialised call =>
      exact iff_of_true (submit_announced id params uninitialised call hs) trivial
    | blockNotify rpctemplate => exact handleBlockNotify_announced rpctemplate hs hb
    | newJob => exact handleNewJob_announced _ hs hb

end Steps

/-- **Announced and enforced difficulty (ZEC).** On a new connection, an authorised client is
in every state of a run last told the target of its current difficulty exactly if each login
answered `OK` finds a difficulty with a target of 32 bytes and no completed `HandleNewJob`
activates a difficulty with another target. -/
theorem announced_iff (confs : StaticConf) (env : Env R) (srv : Server .ZEC R)
    (old : Uninitialised) (extraNonce time : Nat) (diff rate : Double) (retargetInterval : Nat)
    (events : List ConnectionEvent) :
    Always (step confs env) (Announced confs)
        (start srv old extraNonce time diff rate retargetInterval) events ↔
      Guarded (step confs env) (KeepsTarget confs env)
        (start srv old extraNonce time diff rate retargetInterval) events := by
  have h0 : (start srv old extraNonce time diff rate retargetInterval).Announced confs := by
    intro _ hauth
    cases hauth
  exact always_iff_guarded (fun _ e hs => step_announced e hs) h0 events

/-! ## A retarget -/

/-- A template whose target is 64 digits `f`. -/
def easyTemplate : BlockTemplateResVrsc := sampleTemplateZec (List.replicate 64 102)

/-- A client of difficulty 1000 logs in, submits a share after 1000 seconds, and a new block
comes. -/
def retargetEvents : List ConnectionEvent :=
  [.authorize 1 [some (ascii "1.w")] 0 0,
    .submit 2 (submitParams (ascii "w") (ascii "00000000")) 0
      ⟨1000000, 1000000, [], List.Vector.replicate 7 0⟩,
    .blockNotify { easyTemplate with height := 2 }]

def retargeted : Connection Round.RoundDb :=
  run (step vrscStatic (sampleEnv maxHash))
    (start (freshServer (p := .ZEC) (constHashes maxHash) easyTemplate) ⟨0, 0, 0⟩ 0 0 1000 30 60)
    retargetEvents

/-- Every call completes and the difficulty is now 2, but the last target sent is that of
difficulty 1000. -/
theorem old_target_announced :
    retargeted.blocked = false ∧ retargeted.client.getHasAuthorized = true ∧
      retargeted.client.currentDiff = 2 ∧
      retargeted.lastTarget = (getDifficultyHex vrscStatic 1000).map setTargetMessage ∧
      ¬ retargeted.Announced vrscStatic := by
  have hrun : retargeted.blocked = false ∧ retargeted.client.getHasAuthorized = true ∧
      retargeted.client.currentDiff = 2 ∧
      retargeted.lastTarget = (getDifficultyHex vrscStatic 1000).map setTargetMessage := by
    decide +kernel
  obtain ⟨hb, hauth, hdiff, hlast⟩ := hrun
  refine ⟨hb, hauth, hdiff, hlast, fun h => ?_⟩
  obtain ⟨target, ht, hsent⟩ := h hb hauth
  have hother : (getDifficultyHex vrscStatic 1000).map setTargetMessage ≠
      (getDifficultyHex vrscStatic 2).map setTargetMessage := by
    decide +kernel
  rw [hdiff] at ht
  rw [← hlast, hsent, ht] at hother
  exact hother rfl

end Connection
end SickPool.Stratum
