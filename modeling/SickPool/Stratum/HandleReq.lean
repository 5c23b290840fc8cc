import SickPool.Stratum.HandleAuthorize
import SickPool.Stratum.HandleShare
import SickPool.Stratum.Messages

/-!
# Requests and their answers

`HandleReq` of the two protocols, from the text of a request to what is sent on its socket.
The JSON reader is a parameter: for every text it gives what each of the reads of the two
functions returns, `none` where the read throws.
-/
namespace SickPool.Stratum

open SickPool.Library SickPool.Library.Bytes SickPool.Utils SickPool.Crypto SickPool.Jobs
open SickPool.Persistence SickPool.Shares

variable {R : Type} {p : StratumProtocol}

/-- The fields of a request. -/
structure Request where
  id : Option Int
  method : Option Bytes
  worker : Option Bytes
  params : Option Params

/-- The part of a request behind its id that `HandleReq` works on. -/
structure Command where
  method : Bytes
  worker : Bytes
  params : Params

/-- The id of the answers: 0 when none could be read. -/
def Request.answerId (r : Request) : Int := r.id.getD 0

/-- The reads of `HandleReq`, the id first; CN reads a worker for two of its methods. -/
def Request.command : StratumProtocol → Request → Option Command
  | .ZEC, r => do
    let _ ← r.id
    let method ← r.method
    let params ← r.params
    pure ⟨method, [], params⟩
  | .CN, r => do
    let _ ← r.id
    let method ← r.method
    let worker ← if method = ascii "eth_submitWork" ∨ method = ascii "eth_submitLogin" then r.worker
      else some []
    let params ← r.params
    pure ⟨method, worker, params⟩

/-- A message on the socket of the request, by the function that formats it. -/
inductive Reply where
  | res (id : Int) (r : RpcResult)
  | setTarget (target : Bytes)
  | notify (job : JobZec)
  | work (job : JobCn) (id : Int) (target : Bytes)

namespace Reply

def text : Reply → Bytes
  | .res id r => resMessage id r
  | .setTarget target => setTargetMessage target
  | .notify job => job.notifyMsg
  | .work job id target => workMessage job (some id) target

end Reply

/-- The surroundings of a request: those of a share, what `share.time` or `share.nonce` held
before, and the clock readings of an authorisation. -/
structure ReqCall extends Call where
  uninitialised : Nat
  minerTime : Nat
  workerTime : Nat

/-- What a request leaves behind. `returned` is false when `HandleReq` does not come to its
end: an exception leaves it, it reads through a null pointer, or a push of shares has no end. -/
structure Handled (p : StratumProtocol) (R : Type) where
  server : Server p R
  client : StratumClient
  sent : List Reply
  returned : Bool

/-- The answer to a submit request, behind `HandleSubmit`. -/
def answerSubmit (srv : Server p R) (cli : StratumClient) (id : Int) :
    Option (Outcome p R) → Handled p R
  | some o => ⟨o.server, o.client, if o.returned then [.res id o.result] else [], o.returned⟩
  | none => ⟨srv, cli, [], false⟩

/-- `UpdateDifficulty`; past the end of its array nothing is known of the message. -/
def targetReply (confs : StaticConf) (cli : StratumClient) : List Reply :=
  ((getDifficultyHex confs cli.currentDiff).map .setTarget).toList

/-- `BroadcastJob(conn, job, id)`. -/
def workReply (confs : StaticConf) (cli : StratumClient) (job : JobCn) (id : Int) : List Reply :=
  ((getDifficultyHex confs cli.currentDiff).map (.work job id)).toList

/-- `StratumServerZec::HandleReq`. -/
def handleReqZec (env : Env R) (srv : Server .ZEC R) (cli : StratumClient) (req : Request)
    (call : ReqCall) : Handled .ZEC R :=
  match req.command .ZEC with
  | none => ⟨srv, cli, [.res req.answerId ⟨.UNKNOWN, ascii "Bad request"⟩], true⟩
  | some cmd =>
    if cmd.method = ascii "mining.submit" then
      answerSubmit srv cli req.answerId
        (handleSubmitZec env srv cli cmd.params call.uninitialised call.toCall)
    else if cmd.method = ascii "mining.subscribe" then
      ⟨srv, cli, [.res req.answerId (handleSubscribe cli)], true⟩
    else if cmd.method = ascii "mining.authorize" then
      let o := handleAuthorizeZec env srv cli cmd.params call.minerTime call.workerTime
      if o.result.code = .OK then
        ⟨o.server, o.client, .res req.answerId o.result :: targetReply vrscStatic o.client ++
          [.notify o.server.jobManager.lastJob], true⟩
      else ⟨o.server, o.client, [.res req.answerId o.result], true⟩
    else ⟨srv, cli, [.res req.answerId ⟨.UNKNOWN, ascii "Unknown method"⟩], true⟩

/-- `StratumServerCn::HandleReq`. The answer to `eth_getWork` is sent by `BroadcastJob`, and
`res` is sent behind it as it was initialised. -/
def handleReqCn (env : Env R) (srv : Server .CN R) (cli : StratumClient) (req : Request)
    (call : ReqCall) : Handled .CN R :=
  match req.command .CN with
  | none => ⟨srv, cli, [.res req.answerId ⟨.UNKNOWN, ascii "Bad request"⟩], true⟩
  | some cmd =>
    if cmd.method = ascii "eth_submitWork" then
      answerSubmit srv cli req.answerId
        (handleSubmitCn env srv cli cmd.worker cmd.params call.uninitialised call.toCall)
    else if cmd.method = ascii "eth_getWork" then
      ⟨srv, cli, workReply zanoStatic cli srv.jobManager.lastJob req.answerId ++
        [.res req.answerId ⟨.UNKNOWN, ascii "true"⟩], true⟩
    else if cmd.method = ascii "eth_submitLogin" then
      let o := handleAuthorizeCn env srv cli cmd.params cmd.worker call.minerTime call.workerTime
      ⟨o.server, o.client, [.res req.answerId o.result], true⟩
    else ⟨srv, cli, [.res req.answerId ⟨.UNKNOWN, ascii "Unknown method"⟩], true⟩

def handleReq : {p : StratumProtocol} → Env R → Server p R → StratumClient → Request → ReqCall →
    Handled p R
  | .ZEC => handleReqZec
  | .CN => handleReqCn

/-! ## One answer -/

/-- The parameters of a submit without a header hash, and with a nonce or without one: the
texts read are well formed, but `substr` is called on an empty one. -/
def LacksHeader (params : Params) : Prop :=
  params = [] ∨ ∃ nonce, params = [some nonce] ∧ nonce.length = 18

/-- The share is a block, and the pending shares that are pushed before the round is closed are
such that `AddPendingShares` does not come to its end. -/
def Stalls (env : Env R) (srv : Server p R) (cli : StratumClient) (share : Share p)
    (call : Call) : Prop :=
  (cli.getAuthorizedId share.worker).isSome ∧
    (∃ job, srv.jobManager.getJob share.jobId = some job ∧ TimeInRange job share call.time ∧
      ¬ Duplicate env.hashes cli job share call.blockHeader ∧
      .num job.base.targetDiff ≤ shareDifficulty (staticConf p)
        (hashOf env.hashes cli job share call.blockHeader)) ∧
    srv.roundManager.pushReturns env.layer srv.store = false

/-- The share of a submit request, if there is one, reads no missing text and does not stall;
that of a CN request has a header hash. -/
def Returns : {p : StratumProtocol} → Env R → Server p R → StratumClient → Request → ReqCall → Prop
  | .ZEC, env, srv, cli, req, call =>
    ∀ cmd, req.command .ZEC = some cmd → cmd.method = ascii "mining.submit" →
      ∀ share, parseShareZec call.uninitialised cmd.params = .ok share →
        readsNull srv cli share call.toCall = false ∧
          ¬ Stalls (p := .ZEC) env srv cli share call.toCall
  | .CN, env, srv, cli, req, call =>
    ∀ cmd, req.command .CN = some cmd → cmd.method = ascii "eth_submitWork" →
      ¬ LacksHeader cmd.params ∧
        ∀ share, parseShareCn call.uninitialised cmd.worker cmd.params = .ok (some share) →
          ¬ Stalls (p := .CN) env srv cli share call.toCall

/-- `HandleShare` comes to its end unless the share stalls. -/
theorem handleShare_returned_iff (env : Env R) (srv : Server p R) (cli : StratumClient)
    (share : Share p) (call : Call) :
    (handleShare env srv cli share call).returned = true ↔ ¬ Stalls env srv cli share call := by
  cases hid : cli.getAuthorizedId share.worker with
  | none => simp [handleShare, Stalls, hid]
  | some id =>
    cases hj : srv.jobManager.getJob share.jobId with
    | none => simp [handleShare, Stalls, hid, hj]
    | some job =>
      simp only [Stalls, hid, hj, Option.isSome_some, Option.some.injEq, exists_eq_left', true_and]
      by_cases ht : TimeInRange job share call.time
      · obtain ⟨varDiff, pendingDiff, lastAdjusted, hp⟩ := process_inTime env.hashes env.fmtDouble
          cli call.blockHeader call.curtime ht
        simp only [handleShare, hid, hj, hp, settleShare]
        by_cases hd : Duplicate env.hashes cli job share call.blockHeader
        · simp [hd, judge_old]
        · obtain ⟨hcode, -, -⟩ := judge_new env.fmtDouble job
            (hashOf env.hashes cli job share call.blockHeader) cli.currentDiff
          simp only [hd, not_false_eq_true, decide_true, hcode, ht, true_and]
          by_cases hb : Double.num job.base.targetDiff ≤ shareDifficulty (staticConf p)
              (hashOf env.hashes cli job share call.blockHeader)
          · simp [hb, acceptBlock]
          · simp [hb, acceptShare]
      · simp [handleShare, hid, hj, process, ht, settleShare]

theorem getArrField_ok_iff {size : Nat} {param : Option Bytes} {value : Bytes} :
    getArrField size param = .ok value ↔
      param = some value ∧ (size ≠ 0 → value.length = size) := by
  cases param with
  | none => simp [getArrField]
  | some v =>
    simp only [getArrField]
    split_ifs with hbad
    · refine iff_of_false (by simp) ?_
      rintro ⟨hv, hsize⟩
      obtain rfl := Option.some.inj hv
      exact hbad.1 (hsize hbad.2)
    · simp only [Except.ok.injEq, Option.some.injEq]
      constructor
      · rintro rfl
        exact ⟨rfl, fun hne => by_contra fun hlen => hbad ⟨hlen, hne⟩⟩
      · exact And.left

theorem getArrField_ok {size : Nat} (h : size ≠ 0) {param : Option Bytes} {value : Bytes} :
    getArrField size param = .ok value ↔ param = some value ∧ value.length = size := by
  rw [getArrField_ok_iff, forall_prop_of_true h]

/-- The exception of `substr` escapes exactly for a submit without a header hash. -/
theorem parseShareCn_none_iff (nonce : Nat) (worker : Bytes) (params : Params) :
    parseShareCn nonce worker params = .ok none ↔ LacksHeader params := by
  unfold parseShareCn cnFields LacksHeader
  rcases params with _ | ⟨a, _ | ⟨b, rest⟩⟩
  · exact ⟨fun _ => .inl rfl, fun _ => rfl⟩
  · cases ha : getArrField 18 a with
    | error err =>
      have hne : ∀ v, ¬ (a = some v ∧ v.length = 18) := by
        intro v hv
        rw [(getArrField_ok (by decide)).mpr hv] at ha
        cases ha
      simp only [parseShareParams, ha, List.cons.injEq, and_true, reduceCtorEq, false_or]
      exact ⟨fun h => (nomatch h), fun ⟨v, hv⟩ => absurd hv (hne v)⟩
    | ok v =>
      have hv := (getArrField_ok (by decide)).mp ha
      simp only [parseShareParams, ha]
      exact ⟨fun _ => .inr ⟨v, by rw [hv.1], hv.2⟩, fun _ => rfl⟩
  · -- with a header hash there is either an error or a share
    refine iff_of_false (fun h => ?_) (by simp)
    cases ha : getArrField 18 a with
    | error err => simp [parseShareParams, ha, Except.map] at h
    | ok v =>
      have hv := (getArrField_ok (by decide)).mp ha
      cases hb : getArrField 66 b with
      | error err => simp [parseShareParams, ha, hb, Except.map] at h
      | ok w =>
        have hw := (getArrField_ok (by decide)).mp hb
        cases hr : parseShareParams [⟨ascii "mix digest", 66⟩] rest with
        | error err => simp [parseShareParams, ha, hb, hr, Except.map] at h
        | ok values => simp [parseShareParams, ha, hb, hr, Except.map, hv.2, hw.2] at h

theorem handleSubmitCn_none_iff (env : Env R) (srv : Server .CN R) (cli : StratumClient)
    (worker : Bytes) (params : Params) (uninitialised : Nat) (call : Call) :
    handleSubmitCn env srv cli worker params uninitialised call = none ↔ LacksHeader params := by
  rw [← parseShareCn_none_iff uninitialised worker params]
  unfold handleSubmitCn
  split <;> simp_all

/-- A submit request comes to its end if its share neither reads a missing text nor stalls. -/
theorem handleSubmitZec_returned_iff (env : Env R) (srv : Server .ZEC R) (cli : StratumClient)
    (params : Params) (uninitialised : Nat) (call : Call) :
    (∃ o ∈ handleSubmitZec env srv cli params uninitialised call, o.returned = true) ↔
      ∀ share, parseShareZec uninitialised params = .ok share →
        readsNull srv cli share call = false ∧ ¬ Stalls (p := .ZEC) env srv cli share call := by
  unfold handleSubmitZec
  cases parseShareZec uninitialised params with
  | error err => simp [parseFailure]
  | ok share =>
    have hreturned := handleShare_returned_iff (p := .ZEC) env srv cli share call
    cases hnull : readsNull srv cli share call with
    | true => simp [hnull]
    | false => simpa [hnull] using hreturned

theorem handleSubmitCn_returned_iff (env : Env R) (srv : Server .CN R) (cli : StratumClient)
    (worker : Bytes) (params : Params) (uninitialised : Nat) (call : Call) :
    (∃ o ∈ handleSubmitCn env srv cli worker params uninitialised call, o.returned = true) ↔
      ¬ LacksHeader params ∧
        ∀ share, parseShareCn uninitialised worker params = .ok (some share) →
          ¬ Stalls (p := .CN) env srv cli share call := by
  rw [← parseShareCn_none_iff uninitialised worker params]
  unfold handleSubmitCn
  rcases parseShareCn uninitialised worker params with err | _ | share
  · simp [parseFailure]
  · simp
  · have hreturned := handleShare_returned_iff (p := .CN) env srv cli share call
    simpa using hreturned

@[simp] theorem answerSubmit_returned (srv : Server p R) (cli : StratumClient) (id : Int)
    (outcome : Option (Outcome p R)) :
    (answerSubmit srv cli id outcome).returned = true ↔ ∃ o ∈ outcome, o.returned = true := by
  cases outcome <;> simp [answerSubmit]

/-! ## Both protocols -/

/-- `HandleReq` comes to its end but for a submit whose share is lost on the way. -/
theorem handleReq_returned_iff (env : Env R) (srv : Server p R) (cli : StratumClient)
    (req : Request) (call : ReqCall) :
    (handleReq env srv cli req call).returned = true ↔ Returns env srv cli req call := by
  cases p with
  | ZEC =>
    cases hc : req.command .ZEC with
    | none => simp [handleReq, handleReqZec, Returns, hc]
    | some cmd =>
      simp only [handleReq, handleReqZec, Returns, hc, Option.some.injEq, forall_eq']
      by_cases h1 : cmd.method = ascii "mining.submit"
      · simp only [h1, ↓reduceIte, forall_true_left]
        rw [← handleSubmitZec_returned_iff, answerSubmit_returned]
      · simp only [h1, ↓reduceIte, false_implies, iff_true]
        split_ifs <;> rfl
  | CN =>
    cases hc : req.command .CN with
    | none => simp [handleReq, handleReqCn, Returns, hc]
    | some cmd =>
      simp only [handleReq, handleReqCn, Returns, hc, Option.some.injEq, forall_eq']
      by_cases h1 : cmd.method = ascii "eth_submitWork"
      · simp only [h1, ↓reduceIte, forall_true_left]
        rw [← handleSubmitCn_returned_iff, answerSubmit_returned]
      · simp only [h1, ↓reduceIte, false_implies, iff_true]
        split_ifs <;> rfl

def getWorkRequest : Request := ⟨some 7, some (ascii "eth_getWork"), none, some []⟩

end SickPool.Stratum
