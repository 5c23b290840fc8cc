import SickPool.Stratum.HandleAuthorize
import SickPool.Stratum.HandleShare
import SickPool.Stratum.System

/-!
# What a step of the system can do

The jobs change by `SetNewJob` alone, and a client in five ways: it connects, it
authorises a worker, it submits a share, its share set is reset, or its difficulty moves.
The observed system keeps books beside the program: the credited shares, those of them
whose job has stayed since, and the authorisations answered `OK`.
-/
namespace SickPool.Stratum

open SickPool.Library SickPool.Library.Bytes SickPool.Library.Run SickPool.Utils SickPool.Crypto
open SickPool.Jobs SickPool.Persistence SickPool.Stats SickPool.Shares

variable {p : StratumProtocol} {R : Type}

/-! ## Requests -/

/-- Both protocols parse the share and hand it to `HandleShare`. -/
theorem handleSubmit_eq (env : Env R) (srv : Server p R) (cli : StratumClient) (worker : Bytes)
    (params : Params) (uninitialised : Nat) (call : Call) :
    handleSubmit env srv cli worker params uninitialised call =
      match parseShare uninitialised worker params with
      | .error err => some (parseFailure srv cli call err)
      | .ok none => none
      | .ok (some share) => if readsThroughNull srv cli share call then none
          else some (handleShare env srv cli share call) := by
  cases p with
  | ZEC =>
    simp only [handleSubmit, handleSubmitZec, parseShare]
    cases parseShareZec uninitialised params <;> rfl
  | CN =>
    simp only [handleSubmit, handleSubmitCn, parseShare]
    rcases parseShareCn uninitialised worker params with err | _ | share <;> rfl

/-- The worker name a login request is for. -/
def loginName : StratumProtocol → Bytes → Params → Option Bytes
  | .ZEC, _, params => (params.head?.join.bind splitWorker).map Prod.snd
  | .CN, worker, params => params.head?.join.map (fun _ => worker)

/-- A login that is answered `OK` authorises its worker name, any other changes nothing of
the client. -/
theorem handleLogin_answers (env : Env R) (srv : Server p R) (cli : StratumClient)
    (worker : Bytes) (params : Params) (time curtime : Nat) :
    ∃ name, Answers srv cli name (handleLogin env srv cli worker params time curtime) ∧
      ((handleLogin env srv cli worker params time curtime).result.code = .OK →
        loginName p worker params = some name) := by
  cases p with
  | ZEC =>
    simp only [handleLogin, handleAuthorizeZec, loginName]
    cases hp : params.head?.join with
    | none => exact ⟨[], answers_unauthorized cli [] _ rfl, by simp [unauthorized]⟩
    | some workerFull =>
      cases hs : splitWorker workerFull with
      | none =>
        simp only [hs]
        exact ⟨[], answers_unauthorized cli [] _ rfl, by simp [unauthorized]⟩
      | some split =>
        simp only [hs]
        exact ⟨split.2, handleAuthorize_answers env srv cli split.1 split.2 time curtime,
          fun _ => by simp [hs]⟩
  | CN =>
    simp only [handleLogin, handleAuthorizeCn, loginName]
    cases hp : params.head?.join with
    | none => exact ⟨[], answers_unauthorized cli [] _ rfl, by simp [unauthorized]⟩
    | some miner =>
      exact ⟨worker, handleAuthorize_answers env srv cli miner worker time curtime,
        fun _ => by simp⟩

/-! ## What can be observed of a step -/

/-- A credited share: the connection, the share and its proof-of-work hash. -/
structure Payment (p : StratumProtocol) where
  conn : Nat
  share : Share p
  hash : Hash32

/-- What a step does to the jobs, the share sets and the authorised workers. -/
inductive Observation (p : StratumProtocol) where
  | quiet
  | paid (payment : Payment p)
  | granted (conn : Nat) (worker : Bytes) (params : Params)
  | renewed (job : Job p)
  | cleared (conn : Nat)

namespace Observation

def about : Observation p → Option Nat
  | quiet => none
  | paid payment => some payment.conn
  | granted conn _ _ => some conn
  | renewed _ => none
  | cleared conn => some conn

def jobs (jm : JobManager p) : Observation p → JobManager p
  | renewed job => jm.setNewJob job
  | _ => jm

/-- The client an observation is about, before and after the step. -/
def Changes : Observation p → StratumClient → StratumClient → Prop
  | paid payment, cli, cli' => cli'.authorizedWorkers = cli.authorizedWorkers ∧
      shareStart payment.hash ∉ cli.shareUset ∧
      cli'.shareUset = insert (shareStart payment.hash) cli.shareUset
  | granted _ worker params, cli, cli' => ∃ name fid it, loginName p worker params = some name ∧
      cli' = cli.authorizeWorker fid name it
  | cleared _, cli, cli' => cli'.authorizedWorkers = cli.authorizedWorkers ∧ cli'.shareUset = ∅
  | _, _, _ => False

end Observation

/-- A client with its workers and its share set as before. -/
def Keeps (cli cli' : StratumClient) : Prop :=
  cli'.authorizedWorkers = cli.authorizedWorkers ∧ cli'.shareUset = cli.shareUset

namespace System

/-- The observation at a share that was handed to `HandleShare`. -/
def observeShare (env : Env R) (s : System p R) (conn : Nat) (cli : StratumClient)
    (share : Share p) (call : Call) : Observation p :=
  match s.server.jobManager.getJob share.jobId with
  | some job => if (handleShare env s.server cli share call).credits = [] then .quiet
      else .paid ⟨conn, share, hashOf env.hashes cli job share call.blockHeader⟩
  | none => .quiet

/-- The observation made at an event. -/
def observe (env : Env R) (s : System p R) (e : Event p) : Observation p :=
  if s.terminated then .quiet
  else match e with
    | .authorize conn worker params time curtime => match s.clients conn with
      | some cli =>
        if (handleLogin env s.server cli worker params time curtime).result.code = .OK
        then .granted conn worker params else .quiet
      | none => .quiet
    | .submit conn worker params uninitialised call =>
      match s.clients conn, parseShare uninitialised worker params with
      | some cli, .ok (some share) => if readsThroughNull s.server cli share call then .quiet
          else s.observeShare env conn cli share call
      | _, _ => .quiet
    | .blockNotify rpctemplate => match s.phase .control with
      | .idle => match (s.server.jobManager.getNewJob env.hashes rpctemplate).2 with
        | some job => .renewed job
        | none => .quiet
      | _ => .quiet
    | .visit thread conn => match s.phase thread, s.clients conn with
      | .loop .reset _ rest, some _ => if conn ∈ rest then .cleared conn else .quiet
      | _, _ => .quiet
    | _ => .quiet

/-- Everything a step can do to the jobs and the clients. A client that is there after
the step is new, or was there before; only the one observed changes its workers or its
share set. -/
structure Effect (s : System p R) (obs : Observation p) (s' : System p R) : Prop where
  jobs : s'.server.jobManager = obs.jobs s.server.jobManager
  connections : s.connections ≤ s'.connections
  present : ∀ conn, obs.about = some conn → (s.clients conn).isSome
  clients : ∀ conn cli', s'.clients conn = some cli' →
    (s.connections ≤ conn ∧ conn < s'.connections ∧ cli'.authorizedWorkers = [] ∧
      cli'.shareUset = ∅) ∨
    ∃ cli, s.clients conn = some cli ∧
      (obs.about = some conn ∧ obs.Changes cli cli' ∨ obs.about ≠ some conn ∧ Keeps cli cli')

def Numbered (s : System p R) : Prop := ∀ conn cli, s.clients conn = some cli → conn < s.connections

namespace Effect

variable {s s' : System p R} {obs : Observation p} {conn : Nat} {cli cli' : StratumClient}

/-- A step that leaves jobs, clients and connections alone. -/
theorem frame (hj : s'.server.jobManager = s.server.jobManager)
    (hc : s'.clients = s.clients) (hn : s'.connections = s.connections) :
    Effect s .quiet s' where
  jobs := hj
  connections := hn.ge
  present := fun _ h => by cases h
  clients := by
    intro conn cli' h
    rw [hc] at h
    exact .inr ⟨cli', h, .inr ⟨by simp [Observation.about], rfl, rfl⟩⟩

/-- A step that changes one client only. -/
theorem update (hcli : s.clients conn = some cli)
    (hj : s'.server.jobManager = obs.jobs s.server.jobManager)
    (hn : s'.connections = s.connections)
    (hc : s'.clients = Function.update s.clients conn (some cli'))
    (h : obs.about = some conn ∧ obs.Changes cli cli' ∨ obs.about = none ∧ Keeps cli cli') :
    Effect s obs s' where
  jobs := hj
  connections := hn.ge
  present := by
    intro c hc'
    rcases h with ⟨ha, -⟩ | ⟨ha, -⟩
    · obtain rfl := Option.some.inj (ha.symm.trans hc')
      simp [hcli]
    · simp [ha] at hc'
  clients := by
    intro c after hafter
    rw [hc, Function.update_apply] at hafter
    by_cases hconn : c = conn
    · subst hconn
      rw [if_pos rfl] at hafter
      obtain rfl := Option.some.inj hafter
      refine .inr ⟨cli, hcli, ?_⟩
      rcases h with h | ⟨hnone, hkeep⟩
      · exact .inl h
      · exact .inr ⟨by simp [hnone], hkeep⟩
    · rw [if_neg hconn] at hafter
      refine .inr ⟨after, hafter, .inr ⟨?_, rfl, rfl⟩⟩
      rcases h with ⟨ha, -⟩ | ⟨ha, -⟩
      · rw [ha]
        exact fun he => hconn (Option.some.inj he).symm
      · simp [ha]

/-- A client that leaves. -/
theorem remove (hj : s'.server.jobManager = s.server.jobManager)
    (hn : s'.connections = s.connections) (hc : s'.clients = Function.update s.clients conn none) :
    Effect s .quiet s' where
  jobs := hj
  connections := hn.ge
  present := fun _ h => by cases h
  clients := by
    intro c after h
    rw [hc, Function.update_apply] at h
    split at h
    · cases h
    · exact .inr ⟨after, h, .inr ⟨by simp [Observation.about], rfl, rfl⟩⟩

theorem numbered (h : Effect s obs s') (hn : s.Numbered) : s'.Numbered := by
  intro conn cli' hcli'
  rcases h.clients conn cli' hcli' with ⟨-, hlt, -⟩ | ⟨cli, hcli, -⟩
  · exact hlt
  · exact (hn conn cli hcli).trans_le h.connections

end Effect

theorem keeps_broadcastJob (cli : StratumClient) :
    Keeps cli (broadcastJob cli) := by
  unfold broadcastJob
  split <;> exact ⟨rfl, rfl⟩

theorem keeps_handleAdjust (cli : StratumClient) (time curtime : Nat) :
    Keeps cli (cli.handleAdjust time curtime) := by
  obtain ⟨varDiff, pendingDiff, lastAdjusted, h⟩ := cli.setAdjusted_eq
    (cli.varDiff.adjust cli.currentDiff time cli.lastAdjusted) curtime
  rw [StratumClient.handleAdjust, h]
  exact ⟨rfl, rfl⟩

theorem handleConnected_effect (env : Env R) (s : System p R) (thread extraNonce : Nat)
    (old : Uninitialised) (time : Nat) :
    Effect s .quiet (s.handleConnected env thread extraNonce old time) where
  jobs := rfl
  connections := Nat.le_succ _
  present := fun _ h => by cases h
  clients := by
    intro conn cli' h
    simp only [handleConnected, setConstruction, Function.update_apply] at h
    split at h
    · rename_i hconn
      obtain rfl := Option.some.inj h
      exact .inl ⟨hconn.ge, hconn ▸ Nat.lt_succ_self _, rfl, rfl⟩
    · exact .inr ⟨cli', h, .inr ⟨by simp [Observation.about], rfl, rfl⟩⟩

theorem handleTimeout_effect {s : System p R} {conn : Nat} {cli : StratumClient}
    (hcli : s.clients conn = some cli) (time curtime : Nat) :
    Effect s .quiet (s.handleTimeout conn cli time curtime) := by
  unfold handleTimeout
  split
  · exact .update hcli rfl rfl rfl (.inr ⟨rfl, keeps_handleAdjust cli time curtime⟩)
  · split
    · exact .remove rfl rfl rfl
    · exact .frame rfl rfl rfl

theorem login_effect (env : Env R) {s : System p R} {conn : Nat} {cli : StratumClient}
    (hcli : s.clients conn = some cli) (worker : Bytes) (params : Params) (time curtime : Nat) :
    Effect s (if (handleLogin env s.server cli worker params time curtime).result.code = .OK
        then .granted conn worker params else .quiet)
      (s.login env conn cli worker params time curtime) := by
  obtain ⟨name, ⟨hj, hans⟩, hname⟩ := handleLogin_answers env s.server cli worker params time curtime
  rcases hans with ⟨hok, fid, it, hgrant⟩ | ⟨hno, hsame⟩
  · rw [if_pos hok]
    exact .update hcli hj rfl rfl (.inl ⟨rfl, name, fid, it, hname hok, hgrant⟩)
  · rw [if_neg hno]
    refine .update hcli hj rfl rfl (.inr ⟨rfl, ?_⟩)
    rw [hsame]
    exact ⟨rfl, rfl⟩

theorem handleShare_effect (env : Env R) {s s' : System p R} {conn : Nat} {cli : StratumClient}
    (hcli : s.clients conn = some cli) (share : Share p) (call : Call)
    (hs : s'.server = (handleShare env s.server cli share call).server)
    (hn : s'.connections = s.connections)
    (hc : s'.clients = Function.update s.clients conn
      (some (handleShare env s.server cli share call).client)) :
    Effect s (s.observeShare env conn cli share call) s' := by
  have hworkers := handleShare_authorizedWorkers env s.server cli share call
  by_cases hacc : Accepted env s.server cli share call
  · obtain ⟨ha, job, hj, ht, hd⟩ := hacc
    obtain ⟨hcredits, hset, -, hjobs⟩ := handleShare_accepted ha hj ht hd
    rw [← hs] at hjobs
    simp only [observeShare, hj, if_neg hcredits]
    exact .update hcli hjobs hn hc (.inl ⟨rfl, hworkers, hd, hset⟩)
  · obtain ⟨huntouched, hset, -, hjobs⟩ := handleShare_rejected hacc
    rw [← hs] at hjobs
    have hquiet : s.observeShare env conn cli share call = .quiet := by
      simp only [observeShare, huntouched.credits, ↓reduceIte]
      split <;> rfl
    rw [hquiet]
    exact .update hcli hjobs hn hc (.inr ⟨rfl, hworkers, hset⟩)

theorem submit_effect (env : Env R) {s : System p R} {conn : Nat} {cli : StratumClient}
    (hcli : s.clients conn = some cli) (worker : Bytes) (params : Params) (uninitialised : Nat)
    (call : Call) :
    Effect s (match parseShare uninitialised worker params with
        | .ok (some share) => if readsThroughNull s.server cli share call then .quiet
            else s.observeShare env conn cli share call
        | _ => .quiet)
      (s.submit env conn cli worker params uninitialised call) := by
  rw [submit, handleSubmit_eq]
  rcases parseShare uninitialised worker params with err | _ | share
  · exact .update hcli rfl rfl rfl (.inr ⟨rfl, rfl, rfl⟩)
  · exact .frame rfl rfl rfl
  · by_cases hnull : readsThroughNull s.server cli share call = true
    · simp only [hnull, ↓reduceIte]
      exact .frame rfl rfl rfl
    · simp only [hnull]
      exact handleShare_effect env hcli share call rfl rfl rfl

theorem handleBlockNotify_effect (env : Env R) (s : System p R)
    (rpctemplate : BlockTemplateRes p) :
    Effect s (match (s.server.jobManager.getNewJob env.hashes rpctemplate).2 with
        | some job => .renewed job
        | none => .quiet)
      (s.handleBlockNotify env rpctemplate) := by
  have hjobs := s.server.jobManager.getNewJob_jobs env.hashes rpctemplate
  unfold handleBlockNotify
  revert hjobs
  rcases s.server.jobManager.getNewJob env.hashes rpctemplate with ⟨jm, _ | job⟩ <;> intro hjobs
  · exact .frame rfl rfl rfl
  · refine ⟨hjobs, le_rfl, fun _ h => (by cases h), fun conn cli' h => ?_⟩
    exact .inr ⟨cli', h, .inr ⟨by simp [Observation.about], rfl, rfl⟩⟩

theorem visitClient_effect (env : Env R) {s : System p R} {conn : Nat} {cli : StratumClient}
    (hcli : s.clients conn = some cli) (thread : Thread) (stage : Stage) (job : Job p)
    (rest : List Nat) :
    Effect s (match stage with
        | .reset => .cleared conn
        | _ => .quiet)
      (s.visitClient env thread stage job rest conn cli) := by
  cases stage with
  | broadcast => exact .update hcli rfl rfl rfl (.inr ⟨rfl, keeps_broadcastJob cli⟩)
  | sweep =>
    unfold visitClient
    simp only
    split <;> exact .frame rfl rfl rfl
  | reset => exact .update hcli rfl rfl rfl (.inl ⟨rfl, rfl, rfl⟩)

theorem nextStage_effect (env : Env R) (s : System p R) (thread : Thread) (stage : Stage)
    (job : Job p) : Effect s .quiet (s.nextStage env thread stage job) := by
  cases stage with
  | broadcast => exact .frame rfl rfl rfl
  | sweep =>
    unfold nextStage
    simp only
    split <;> exact .frame rfl rfl rfl
  | reset => exact .frame rfl rfl rfl

/-- The call a step makes, with what is observed of it. Of a load the event is kept. -/
inductive Transition (env : Env R) (s : System p R) :
    Event p → Observation p → System p R → Prop
  | frame {e : Event p} {s' : System p R} (hj : s'.server.jobManager = s.server.jobManager)
    (hc : s'.clients = s.clients) (hn : s'.connections = s.connections)
    (hnonces : s'.nonces = s.nonces) : Transition env s e .quiet s'
  | loaded {thread : Nat} (h : s.nonces.construction thread = .idle) :
    Transition env s (.loadNonce thread) .quiet (s.loadNonce thread)
  | stored {e : Event p} {thread extraNonce : Nat}
    (h : s.nonces.construction thread = .loaded extraNonce) :
    Transition env s e .quiet (s.storeNonce thread extraNonce)
  | connected {e : Event p} {thread extraNonce : Nat}
    (h : s.nonces.construction thread = .stored extraNonce) (old : Uninitialised) (time : Nat) :
    Transition env s e .quiet (s.handleConnected env thread extraNonce old time)
  | disconnected {e : Event p} (conn : Nat) (cli : StratumClient) :
    Transition env s e .quiet (s.disconnectClient conn cli)
  | login {e : Event p} {conn : Nat} {cli : StratumClient} (hcli : s.clients conn = some cli)
    (worker : Bytes) (params : Params) (time curtime : Nat) :
    Transition env s e
      (if (handleLogin env s.server cli worker params time curtime).result.code = .OK
        then .granted conn worker params else .quiet)
      (s.login env conn cli worker params time curtime)
  | submit {e : Event p} {conn : Nat} {cli : StratumClient} (hcli : s.clients conn = some cli)
    (worker : Bytes) (params : Params) (uninitialised : Nat) (call : Call) :
    Transition env s e
      (match parseShare uninitialised worker params with
        | .ok (some share) => if readsThroughNull s.server cli share call then .quiet
            else s.observeShare env conn cli share call
        | _ => .quiet)
      (s.submit env conn cli worker params uninitialised call)
  | timeout {e : Event p} {conn : Nat} {cli : StratumClient} (hcli : s.clients conn = some cli)
    (time curtime : Nat) : Transition env s e .quiet (s.handleTimeout conn cli time curtime)
  | blockNotify {e : Event p} (rpctemplate : BlockTemplateRes p) :
    Transition env s e
      (match (s.server.jobManager.getNewJob env.hashes rpctemplate).2 with
        | some job => .renewed job
        | none => .quiet)
      (s.handleBlockNotify env rpctemplate)
  | visit {e : Event p} {conn : Nat} {cli : StratumClient} (hcli : s.clients conn = some cli)
    (thread : Thread) (stage : Stage) (job : Job p) (rest : List Nat) :
    Transition env s e
      (match stage with
        | .reset => .cleared conn
        | _ => .quiet)
      (s.visitClient env thread stage job rest conn cli)
  | next {e : Event p} (thread : Thread) (stage : Stage) (job : Job p) :
    Transition env s e .quiet (s.nextStage env thread stage job)

theorem step_transition (env : Env R) (s : System p R) (e : Event p) :
    Transition env s e (s.observe env e) (s.step env e) := by
  unfold step observe
  by_cases ht : s.terminated = true
  · rw [if_pos ht, if_pos ht]
    exact .frame rfl rfl rfl rfl
  rw [if_neg ht, if_neg ht]
  cases e with
  | loadNonce thread =>
    simp only
    split
    · exact .loaded ‹_›
    · exact .frame rfl rfl rfl rfl
  | storeNonce thread =>
    simp only
    split
    · exact .stored ‹_›
    · exact .frame rfl rfl rfl rfl
  | connect thread old time =>
    simp only
    split
    · split
      · exact .connected ‹_› old time
      · exact .frame rfl rfl rfl rfl
    · exact .frame rfl rfl rfl rfl
  | disconnect conn =>
    simp only
    split
    · split
      · exact .disconnected conn _
      · exact .frame rfl rfl rfl rfl
    · exact .frame rfl rfl rfl rfl
  | authorize conn worker params time curtime =>
    simp only
    cases hcli : s.clients conn with
    | none => exact .frame rfl rfl rfl rfl
    | some cli => exact .login hcli worker params time curtime
  | submit conn worker params uninitialised call =>
    simp only
    cases hcli : s.clients conn with
    | none => exact .frame rfl rfl rfl rfl
    | some cli =>
      have h : Transition env s (.submit conn worker params uninitialised call) _ _ :=
        .submit hcli worker params uninitialised call
      revert h
      rcases parseShare uninitialised worker params with err | _ | share <;> exact id
  | timeout conn time curtime =>
    simp only
    cases hcli : s.clients conn with
    | none => exact .frame rfl rfl rfl rfl
    | some cli => exact .timeout hcli time curtime
  | pushPendingShares => exact .frame rfl rfl rfl rfl
  | blockNotify rpctemplate =>
    simp only
    cases s.phase .control with
    | idle => exact .blockNotify rpctemplate
    | loop stage job rest => exact .frame rfl rfl rfl rfl
    | blocked => exact .frame rfl rfl rfl rfl
  | listen =>
    simp only
    split <;> exact .frame rfl rfl rfl rfl
  | visit thread conn =>
    simp only
    cases s.phase thread with
    | idle => exact .frame rfl rfl rfl rfl
    | blocked => exact .frame rfl rfl rfl rfl
    | loop stage job rest =>
      cases hcli : s.clients conn with
      | none => cases stage <;> exact .frame rfl rfl rfl rfl
      | some cli =>
        have h : Transition env s (.visit thread conn) _ _ :=
          .visit hcli thread stage job (rest.erase conn)
        by_cases hmem : conn ∈ rest
        · cases stage <;> simp only [hmem, ↓reduceIte] <;> exact h
        · cases stage <;> simp only [hmem, ↓reduceIte] <;> exact .frame rfl rfl rfl rfl
  | next thread =>
    simp only
    cases s.phase thread with
    | idle => exact .frame rfl rfl rfl rfl
    | blocked => exact .frame rfl rfl rfl rfl
    | loop stage job rest =>
      cases rest with
      | nil => exact .next thread stage job
      | cons conn rest => exact .frame rfl rfl rfl rfl

theorem Transition.effect {env : Env R} {s s' : System p R} {e : Event p} {obs : Observation p}
    (h : Transition env s e obs s') : Effect s obs s' := by
  cases h with
  | frame hj hc hn => exact .frame hj hc hn
  | loaded => exact .frame rfl rfl rfl
  | stored => exact .frame rfl rfl rfl
  | connected _ old time => exact handleConnected_effect env s _ _ old time
  | disconnected conn cli => exact .remove rfl rfl rfl
  | login hcli worker params time curtime =>
    exact login_effect env hcli worker params time curtime
  | submit hcli worker params uninitialised call =>
    exact submit_effect env hcli worker params uninitialised call
  | timeout hcli time curtime => exact handleTimeout_effect hcli time curtime
  | blockNotify rpctemplate => exact handleBlockNotify_effect env s rpctemplate
  | visit hcli thread stage job rest => exact visitClient_effect env hcli thread stage job rest
  | next thread stage job => exact nextStage_effect env s thread stage job

/-- **What a step can do.** -/
theorem step_effect (env : Env R) (s : System p R) (e : Event p) :
    Effect s (s.observe env e) (s.step env e) :=
  (s.step_transition env e).effect

/-- A payment is for a share of a known job that a client just submitted, and that is not
in its share set. -/
theorem observe_paid {env : Env R} {s : System p R} {e : Event p} {payment : Payment p}
    (h : s.observe env e = .paid payment) :
    ∃ cli job worker params uninitialised call,
      e = .submit payment.conn worker params uninitialised call ∧
      parseShare uninitialised worker params = .ok (some payment.share) ∧
      s.clients payment.conn = some cli ∧
      s.server.jobManager.getJob payment.share.jobId = some job ∧
      payment.hash = hashOf env.hashes cli job payment.share call.blockHeader ∧
      shareStart payment.hash ∉ cli.shareUset := by
  unfold observe at h
  split at h
  · cases h
  · cases e with
    | submit conn worker params uninitialised call =>
      simp only at h
      split at h
      · rename_i cli share hcli hparse
        split at h
        · cases h
        unfold observeShare at h
        split at h
        · rename_i job hj
          split at h
          · cases h
          · rename_i hcredits
            obtain rfl := Observation.paid.inj h
            refine ⟨cli, job, worker, params, uninitialised, call, rfl, hparse, hcli, hj, rfl, ?_⟩
            intro hdup
            refine hcredits (handleShare_rejected ?_).1.credits
            rintro ⟨-, job', hj', -, hd⟩
            obtain rfl : job = job' := Option.some.inj (hj.symm.trans hj')
            exact hd hdup
        · cases h
      · cases h
    | _ =>
      simp only at h
      repeat' split at h
      all_goals cases h

/-! ## The clients of a step -/

/-- Everything a step can make of a client. -/
inductive ClientChange (env : Env R) (s : System p R) (cli : StratumClient) : StratumClient → Prop
  | same : ClientChange env s cli cli
  | login (worker : Bytes) (params : Params) (time curtime : Nat) :
    ClientChange env s cli (handleLogin env s.server cli worker params time curtime).client
  | share (share : Share p) (call : Call) :
    ClientChange env s cli (handleShare env s.server cli share call).client
  | adjust (time curtime : Nat) : ClientChange env s cli (cli.handleAdjust time curtime)
  | broadcast : ClientChange env s cli (broadcastJob cli)
  | reset : ClientChange env s cli cli.resetShareSet

/-- The clients after a step are those before it, as the step changes them. -/
def ClientsFrom (env : Env R) (s s' : System p R) : Prop :=
  ∀ conn cli', s'.clients conn = some cli' →
    ∃ cli, s.clients conn = some cli ∧ ClientChange env s cli cli'

namespace ClientsFrom

variable {env : Env R} {s s' : System p R} {conn : Nat} {cli cli' : StratumClient}

theorem frame (h : s'.clients = s.clients) : ClientsFrom env s s' := by
  intro conn cli' hcli'
  rw [h] at hcli'
  exact ⟨cli', hcli', .same⟩

theorem update (hcli : s.clients conn = some cli)
    (h : s'.clients = Function.update s.clients conn (some cli'))
    (hc : ClientChange env s cli cli') : ClientsFrom env s s' := by
  intro c after hafter
  rw [h, Function.update_apply] at hafter
  split at hafter
  · rename_i hconn
    obtain rfl := Option.some.inj hafter
    exact ⟨cli, hconn ▸ hcli, hc⟩
  · exact ⟨after, hafter, .same⟩

theorem remove (h : s'.clients = Function.update s.clients conn none) : ClientsFrom env s s' := by
  intro c after hafter
  rw [h, Function.update_apply] at hafter
  split at hafter
  · cases hafter
  · exact ⟨after, hafter, .same⟩

end ClientsFrom

/-- What a step does to the nonces: nothing, or it is one of the three steps in which a service
thread makes a client. -/
inductive NonceStep (env : Env R) (s : System p R) : Event p → System p R → Prop
  | keeps {e : Event p} {s' : System p R} (hn : s'.nonces = s.nonces) (hc : ClientsFrom env s s') :
    NonceStep env s e s'
  | loads {thread : Nat} (h : s.nonces.construction thread = .idle) :
    NonceStep env s (.loadNonce thread) (s.loadNonce thread)
  | stores {e : Event p} {thread extraNonce : Nat}
    (h : s.nonces.construction thread = .loaded extraNonce) :
    NonceStep env s e (s.storeNonce thread extraNonce)
  | connects {e : Event p} {thread extraNonce : Nat}
    (h : s.nonces.construction thread = .stored extraNonce) (old : Uninitialised) (time : Nat) :
    NonceStep env s e (s.handleConnected env thread extraNonce old time)

theorem submit_nonceStep (env : Env R) (e : Event p) {s : System p R} {conn : Nat}
    {cli : StratumClient} (hcli : s.clients conn = some cli) (worker : Bytes) (params : Params)
    (uninitialised : Nat) (call : Call) :
    NonceStep env s e (s.submit env conn cli worker params uninitialised call) := by
  rw [submit, handleSubmit_eq]
  rcases parseShare uninitialised worker params with err | _ | share
  · exact .keeps rfl (.update hcli rfl .same)
  · exact .keeps rfl (.frame rfl)
  · by_cases hnull : readsThroughNull s.server cli share call = true
    · simp only [hnull]
      exact .keeps rfl (.frame rfl)
    · simp only [hnull]
      exact .keeps rfl (.update hcli rfl (.share share call))

theorem handleTimeout_nonceStep (env : Env R) (e : Event p) {s : System p R} {conn : Nat}
    {cli : StratumClient} (hcli : s.clients conn = some cli) (time curtime : Nat) :
    NonceStep env s e (s.handleTimeout conn cli time curtime) := by
  unfold handleTimeout
  split
  · exact .keeps rfl (.update hcli rfl (.adjust time curtime))
  · split
    · exact .keeps rfl (.remove rfl)
    · exact .keeps rfl (.frame rfl)

theorem visitClient_nonceStep (env : Env R) (e : Event p) {s : System p R} {conn : Nat}
    {cli : StratumClient} (hcli : s.clients conn = some cli) (thread : Thread) (stage : Stage)
    (job : Job p) (rest : List Nat) :
    NonceStep env s e (s.visitClient env thread stage job rest conn cli) := by
  cases stage with
  | broadcast => exact .keeps rfl (.update hcli rfl .broadcast)
  | sweep =>
    unfold visitClient
    simp only
    split <;> exact .keeps rfl (.frame rfl)
  | reset => exact .keeps rfl (.update hcli rfl .reset)

theorem nextStage_nonceStep (env : Env R) (e : Event p) (s : System p R) (thread : Thread)
    (stage : Stage) (job : Job p) : NonceStep env s e (s.nextStage env thread stage job) := by
  cases stage with
  | broadcast => exact .keeps rfl (.frame rfl)
  | sweep =>
    unfold nextStage
    simp only
    split <;> exact .keeps rfl (.frame rfl)
  | reset => exact .keeps rfl (.frame rfl)

theorem Transition.nonceStep {env : Env R} {s s' : System p R} {e : Event p} {obs : Observation p}
    (h : Transition env s e obs s') : NonceStep env s e s' := by
  cases h with
  | frame hj hc hn hnonces => exact .keeps hnonces (.frame hc)
  | loaded h => exact .loads h
  | stored h => exact .stores h
  | connected h old time => exact .connects h old time
  | disconnected conn cli => exact .keeps rfl (.remove rfl)
  | login hcli worker params time curtime =>
    exact .keeps rfl (.update hcli rfl (.login worker params time curtime))
  | submit hcli worker params uninitialised call =>
    exact submit_nonceStep env _ hcli worker params uninitialised call
  | timeout hcli time curtime => exact handleTimeout_nonceStep env _ hcli time curtime
  | blockNotify rpctemplate =>
    unfold handleBlockNotify
    split <;> exact .keeps rfl (.frame rfl)
  | visit hcli thread stage job rest => exact visitClient_nonceStep env _ hcli thread stage job rest
  | next thread stage job => exact nextStage_nonceStep env _ s thread stage job

/-- **What a step does to the nonces.** -/
theorem step_nonceStep (env : Env R) (s : System p R) (e : Event p) :
    NonceStep env s e (s.step env e) :=
  (s.step_transition env e).nonceStep

end System

/-! ## The books beside the program -/

/-- A login request answered `OK`. -/
structure Login where
  conn : Nat
  worker : Bytes
  params : Params
  deriving DecidableEq

/-- The program with its books: the credited shares, those credited since the jobs were
last dropped, and the logins answered `OK`. -/
structure Observed (p : StratumProtocol) (R : Type) where
  system : System p R
  paid : List (Payment p)
  current : List (Payment p)
  logins : List Login

namespace Observed

def start (srv : Server p R) : Observed p R := ⟨.start srv, [], [], []⟩

/-- The books after an observation. A clean job takes the place of all others. -/
def record (o : Observed p R) (system : System p R) : Observation p → Observed p R
  | .paid payment => ⟨system, o.paid ++ [payment], o.current ++ [payment], o.logins⟩
  | .granted conn worker params => ⟨system, o.paid, o.current, o.logins ++ [⟨conn, worker, params⟩]⟩
  | .renewed job => ⟨system, o.paid, if job.base.clean then [] else o.current, o.logins⟩
  | _ => ⟨system, o.paid, o.current, o.logins⟩

def step (env : Env R) (o : Observed p R) (e : Event p) : Observed p R :=
  o.record (o.system.step env e) (o.system.observe env e)

theorem record_system (o : Observed p R) (system : System p R) (obs : Observation p) :
    (o.record system obs).system = system := by
  cases obs <;> rfl

/-- The books do not touch the program. -/
theorem run_system (env : Env R) (o : Observed p R) (events : List (Event p)) :
    (run (step env) o events).system = run (System.step env) o.system events := by
  induction events generalizing o with
  | nil => rfl
  | cons e es ih => rw [run_cons, run_cons, ih, step, record_system]

end Observed
end SickPool.Stratum
