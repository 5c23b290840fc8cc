import SickPool.Crypto.Base58
import SickPool.Round.RoundManager
import SickPool.Shares.ShareProcessor
import SickPool.Stats.StatsManager

/-!
# The stratum server

`StratumServer::HandleShare` and `HandleAuthorize`, and the requests of the two
protocols that lead to them. A request is given as the elements of its JSON array
`params`; an element that is not a string is `none`.
-/
namespace SickPool.Stratum

open SickPool.Library SickPool.Library.Bytes SickPool.Utils SickPool.Crypto SickPool.Jobs
open SickPool.Persistence SickPool.Stats SickPool.Shares SickPool.Difficulty
open SickPool.Round (RoundManager)

/-- What the server reads of `CoinConfig`. -/
structure CoinConfig where
  symbol : Bytes
  defaultDiff : Double
  minimumDiff : Double
  targetSharesRate : Double
  retargetInterval : Nat
  minPayoutThreshold : Nat

/-- What the server calls: hash functions, databases, the daemon and `fmt` on doubles. -/
structure Env (R : Type) where
  hashes : Hashes
  layer : PersistenceLayer R
  config : CoinConfig
  validateAliasEncoding : Bytes → Bool
  getAliasAddress : Bytes → Option Bytes
  fmtDouble : Double → Bytes

/-- The state of `StratumServer` apart from its clients. `submitted` lists what
`TrySubmit` was given. -/
structure Server (p : StratumProtocol) (R : Type) where
  jobManager : JobManager p
  roundManager : RoundManager
  statsManager : StatsManager
  store : R
  submitted : List Bytes

/-- The surroundings of one call: the two clock readings, the header buffer of the worker
thread and the bytes behind the nonce on its stack. -/
structure Call where
  time : Nat
  curtime : Nat
  blockHeader : Bytes
  beyond : List.Vector UInt8 7

/-- A call that credits a miner. -/
inductive Credit where
  | addRoundShare (minerId : Nat) (effort : Double)
  | addRoundSharePPLNS (minerId : Nat) (effort : Double)
  | addValidShare (it : Nat) (diff : Double)
  deriving DecidableEq

/-- The outcome of `HandleShare`: the answer, the new state, and the crediting calls.
`returned` is false for a block whose `AddPendingShares` does not come to its end; the other
fields are then those of a call that does. -/
structure Outcome (p : StratumProtocol) (R : Type) where
  result : RpcResult
  server : Server p R
  client : StratumClient
  blockHeader : Bytes
  credits : List Credit
  returned : Bool

variable {p : StratumProtocol} {R : Type}

/-! ## Shares -/

def getBlockHex : {p : StratumProtocol} → Job p → Call → Bytes → Share p → Bytes
  | .ZEC, job, _, blockHeader, _ => JobZec.getBlockHex job blockHeader
  | .CN, job, call, _, share => JobCn.getBlockHex job call.beyond (ShareCn.nonce share)

/-- The hash recorded for a block: that of the share, but of the whole block for CN. -/
def submissionHash (hashes : Hashes) : {p : StratumProtocol} → Job p → Call → Share p →
    Hash32 → Hash32
  | .ZEC, _, _, _, hash => hash
  | .CN, job, call, share, _ => JobCn.getBlockHash hashes job call.beyond (ShareCn.nonce share)

/-- `block_hex`: the first `2 * block_size` characters of what `GetBlockHex` wrote. -/
def blockHex (job : Job p) (call : Call) (blockHeader : Bytes) (share : Share p) : Bytes :=
  (getBlockHex job call blockHeader share).take (job.base.blockSize * 2)

/-- The `BlockSubmission` for a share that is a block. -/
def blockSubmission (env : Env R) (srv : Server p R) (id : FullId) (job : Job p)
    (share : Share p) (res : ShareResult) (call : Call) : BlockSubmission where
  id := 0
  minerId := id.minerId
  workerId := id.workerId
  blockType := .PENDING
  chain := 0
  reward := job.base.coinbaseValue
  timeMs := call.time
  durationMs := sub64 call.time srv.roundManager.round.roundStartMs
  height := job.base.height
  difficulty := res.difficulty
  effortPercent := srv.roundManager.round.totalEffort / .num job.base.expectedHashes * 100
  hashBin := submissionHash env.hashes job call share res.hashBytes

/-- The branch of `HandleShare` for a block: submit it, close the round, credit the
share to the PPLNS window and the statistics. -/
def acceptBlock (env : Env R) (srv : Server p R) (id : FullId) (job : Job p)
    (share : Share p) (res : ShareResult) (call : Call) (cli : StratumClient)
    (blockHeader : Bytes) : Outcome p R :=
  let (rm, store, _) := srv.roundManager.closeRound env.layer srv.store
    (blockSubmission env srv id job share res call)
  { result := ⟨.OK, ascii "true"⟩
    server := { srv with
      roundManager := rm.addRoundSharePPLNS id.minerId res.difficulty
      statsManager := srv.statsManager.addValidShare cli.statsIt cli.currentDiff
      store := store
      submitted := srv.submitted ++ [blockHex job call blockHeader share] }
    client := cli
    blockHeader := blockHeader
    credits := [.addRoundSharePPLNS id.minerId res.difficulty,
      .addValidShare cli.statsIt cli.currentDiff]
    returned := srv.roundManager.pushReturns env.layer srv.store }

/-- The branch of `HandleShare` for a valid share. -/
def acceptShare (srv : Server p R) (id : FullId) (res : ShareResult) (cli : StratumClient)
    (blockHeader : Bytes) : Outcome p R where
  result := ⟨.OK, ascii "true"⟩
  server := { srv with
    roundManager := (srv.roundManager.addRoundShare id.minerId res.difficulty).addRoundSharePPLNS
      id.minerId cli.currentDiff
    statsManager := srv.statsManager.addValidShare cli.statsIt cli.currentDiff }
  client := cli
  blockHeader := blockHeader
  credits := [.addRoundShare id.minerId res.difficulty,
    .addRoundSharePPLNS id.minerId cli.currentDiff, .addValidShare cli.statsIt cli.currentDiff]
  returned := true

/-- The part of `HandleShare` after `Process`. -/
def settleShare (env : Env R) (srv : Server p R) (id : FullId) (job : Job p) (share : Share p)
    (call : Call) (processed : ShareResult × StratumClient × Bytes) : Outcome p R :=
  match processed.1.code with
  | .VALID_BLOCK => acceptBlock env srv id job share processed.1 call processed.2.1 processed.2.2
  | .VALID_SHARE => acceptShare srv id processed.1 processed.2.1 processed.2.2
  | code =>
    { result := ⟨code, processed.1.message⟩
      server := { srv with
        statsManager := srv.statsManager.addInvalidShare processed.2.1.statsIt }
      client := processed.2.1
      blockHeader := processed.2.2
      credits := []
      returned := true }

/-- `HandleShare`. -/
def handleShare (env : Env R) (srv : Server p R) (cli : StratumClient) (share : Share p)
    (call : Call) : Outcome p R :=
  match cli.getAuthorizedId share.worker with
  | none =>
    ⟨⟨.UNAUTHORIZED_WORKER, ascii "Unauthorized worker"⟩, srv, cli, call.blockHeader, [], true⟩
  | some id =>
    match srv.jobManager.getJob share.jobId with
    | none =>
      ⟨⟨.JOB_NOT_FOUND, ascii "Job not found"⟩,
        { srv with statsManager := srv.statsManager.addStaleShare cli.statsIt }, cli,
        call.blockHeader, [], true⟩
    | some job =>
      settleShare env srv id job share call
        (process env.hashes env.fmtDouble cli call.blockHeader job share call.time call.curtime)

/-! ## Submit requests -/

/-- The elements of a JSON array; `none` is an element that is not a string. -/
abbrev Params := List (Option Bytes)

/-- `Field`: the name and the required size, 0 for any. -/
structure Field where
  name : Bytes
  size : Nat

/-- `GetArrField` with the text for an error. -/
def getArrField (size : Nat) : Option Bytes → Except Bytes Bytes
  | none => .error []
  | some value =>
    if value.length ≠ size ∧ size ≠ 0 then .error (ascii "Bad size of field") else .ok value

/-- `ParseShareParams`: the values of the fields in order, empty for a field that the
array does not reach. -/
def parseShareParams : List Field → Params → Except Bytes (List Bytes)
  | [], _ => .ok []
  | fields, [] => .ok (fields.map (fun _ => []))
  | field :: fields, param :: params =>
    match getArrField field.size param with
    | .error value => .error (field.name ++ ascii ": " ++ value)
    | .ok value => (parseShareParams fields params).map (value :: ·)

def zecFields : List Field :=
  [⟨ascii "worker", 0⟩, ⟨ascii "job id", 8⟩, ⟨ascii "time", 8⟩, ⟨ascii "nonce2", 56⟩,
    ⟨ascii "solution", 2694⟩]

/-- The share of a ZEC submit. `time` is what `share.time` held before. -/
def parseShareZec (time : Nat) (params : Params) : Except Bytes ShareZec :=
  (parseShareParams zecFields params).map (fun values =>
    { worker := values.getD 0 []
      jobId := values.getD 1 []
      nonce2 := values.getD 3 []
      solution := values.getD 4 []
      time := bswap 4 (fromChars16 uint32Size time (values.getD 2 [])) })

def cnFields : List Field :=
  [⟨ascii "nonce", 18⟩, ⟨ascii "header pow", 66⟩, ⟨ascii "mix digest", 66⟩]

/-- The share of a CN submit. The texts lose their `0x`; `none` stands for the
`std::out_of_range` that `substr` throws on a missing text. -/
def parseShareCn (nonce : Nat) (worker : Bytes) (params : Params) :
    Except Bytes (Option ShareCn) :=
  (parseShareParams cnFields params).map (fun values =>
    if (values.getD 1 []).length < 2 ∨ (values.getD 0 []).length < 2 then none
    else some
      { worker := worker
        jobId := (values.getD 1 []).drop 2
        mixDigest := values.getD 2 []
        nonce := bswap 8 (fromChars16 uint64Size nonce ((values.getD 0 []).drop 2)) })

def parseFailure (srv : Server p R) (cli : StratumClient) (call : Call) (err : Bytes) :
    Outcome p R :=
  ⟨⟨.UNKNOWN, ascii "Failed to parse share: " ++ err⟩, srv, cli, call.blockHeader, [], true⟩

/-- A ZEC share that comes as far as `GetHeaderData` with a text that the array did not reach:
`Unhexlify` reads through the null pointer of an empty `string_view`. -/
def readsNull (srv : Server .ZEC R) (cli : StratumClient) (share : Share .ZEC) (call : Call) :
    Bool :=
  match cli.getAuthorizedId share.worker, srv.jobManager.getJob share.jobId with
  | some _, some job => decide (TimeInRange job share call.time ∧
      (ShareZec.nonce2 share = [] ∨ ShareZec.solution share = []))
  | _, _ => false

theorem readsNull_eq_false (srv : Server .ZEC R) (cli : StratumClient) {share : Share .ZEC}
    (call : Call) (hnonce2 : ShareZec.nonce2 share ≠ [])
    (hsolution : ShareZec.solution share ≠ []) : readsNull srv cli share call = false := by
  unfold readsNull
  split <;> simp [hnonce2, hsolution]

theorem authorized_of_readsNull {srv : Server .ZEC R} {cli : StratumClient} {share : Share .ZEC}
    {call : Call} (h : readsNull srv cli share call = true) :
    (cli.getAuthorizedId share.worker).isSome := by
  unfold readsNull at h
  split at h
  · rename_i hid _
    rw [hid]
    rfl
  · cases h

/-- `StratumServerZec::HandleSubmit`; `none` when the process dies of a null pointer. -/
def handleSubmitZec (env : Env R) (srv : Server .ZEC R) (cli : StratumClient) (params : Params)
    (uninitialised : Nat) (call : Call) : Option (Outcome .ZEC R) :=
  match parseShareZec uninitialised params with
  | .error err => some (parseFailure srv cli call err)
  | .ok share =>
    if readsNull srv cli share call then none
    else some (handleShare (p := .ZEC) env srv cli share call)

/-- `StratumServerCn::HandleSubmit`; `none` when an exception escapes. -/
def handleSubmitCn (env : Env R) (srv : Server .CN R) (cli : StratumClient) (worker : Bytes)
    (params : Params) (uninitialised : Nat) (call : Call) : Option (Outcome .CN R) :=
  match parseShareCn uninitialised worker params with
  | .error err => some (parseFailure srv cli call err)
  | .ok none => none
  | .ok (some share) => some (handleShare (p := .CN) env srv cli share call)

def handleSubscribe (cli : StratumClient) : RpcResult :=
  ⟨.OK, ascii "[null,\"" ++ cli.extraNonceHex ++ ascii "\"]"⟩

/-! ## Authorisation -/

def MAX_WORKER_NAME_LEN : Nat := 16

structure AuthOutcome (p : StratumProtocol) (R : Type) where
  result : RpcResult
  server : Server p R
  client : StratumClient

def unauthorized (srv : Server p R) (cli : StratumClient) (msg : Bytes) : AuthOutcome p R :=
  ⟨⟨.UNAUTHORIZED_WORKER, msg⟩, srv, cli⟩

/-- The address an authorisation is for, with the alias: of an alias the daemon's
address, else the address given when it decodes. -/
def resolveAddress (env : Env R) (address : Bytes) : Except Bytes (Bytes × Bytes) :=
  match address with
  | 64 :: ali =>
    if env.validateAliasEncoding ali = false then .error (ascii "Invalid alias name!")
    else match env.getAliasAddress ali with
      | some resolved => .ok (resolved, ali)
      | none => .error (ascii "Alias does not exist!")
  | address =>
    if (Base58.decodeBase58 address).isSome then .ok (address, [])
    else .error (ascii "Invalid address " ++ address ++ ascii " !")

/-- The second half of `HandleAuthorize`, for a miner with id `minerId`. -/
def authorizeMiner (env : Env R) (srv : Server p R) (cli : StratumClient)
    (address ali worker : Bytes) (minerId curtime : Nat) : AuthOutcome p R :=
  match StatsManager.addWorker env.layer srv.store
      (env.layer.getWorkerId srv.store (minerId % uint32Size) worker) minerId address worker ali
      curtime with
  | (store, none) => unauthorized { srv with store := store } cli
      (ascii "Failed to add worker to database, please contact support!")
  | (store, some workerId) =>
    let fid := FullId.ofIds minerId workerId
    let (sm, statsIt) := srv.statsManager.addExistingWorker fid
    ⟨⟨.OK, ascii "true"⟩, { srv with store := store, statsManager := sm },
      cli.authorizeWorker fid worker statsIt⟩

/-- `HandleAuthorize(cli, address, worker)`; `time` and `curtime` are the clock readings
of `AddMiner` and `AddWorker`. -/
def handleAuthorize (env : Env R) (srv : Server p R) (cli : StratumClient)
    (address worker : Bytes) (time curtime : Nat) : AuthOutcome p R :=
  if MAX_WORKER_NAME_LEN < worker.length then
    unauthorized srv cli (ascii "Worker name too long! (max MAX_WORKER_NAME_LEN chars)")
  else match resolveAddress env address with
    | .error msg => unauthorized srv cli msg
    | .ok (resolved, ali) =>
      let (minerId, dbAlias) := env.layer.getMinerId srv.store resolved ali
      match StatsManager.addMiner env.layer srv.store minerId resolved ali
          env.config.minPayoutThreshold time with
      | (store, none) => unauthorized { srv with store := store } cli
          (ascii "Failed to add miner to database, please contact support!")
      | (store, some minerId) =>
        if address.head? = some 64 ∧ dbAlias ≠ ali then
          match env.layer.updateAlias store minerId ali with
          | (store, true) =>
            authorizeMiner env { srv with store := store } cli resolved ali worker minerId curtime
          | (store, false) => unauthorized { srv with store := store } cli
              (ascii "Failed to update miner identity, please contact support!")
        else authorizeMiner env { srv with store := store } cli resolved ali worker minerId curtime

/-- `worker_full` up to its first dot and behind it. -/
def splitWorker (workerFull : Bytes) : Option (Bytes × Bytes) :=
  match workerFull.span (· ≠ 46) with
  | (miner, _ :: worker) => some (miner, worker)
  | (_, []) => none

/-- `HandleAuthorize(cli, params)`, for ZEC. -/
def handleAuthorizeZec (env : Env R) (srv : Server p R) (cli : StratumClient) (params : Params)
    (time curtime : Nat) : AuthOutcome p R :=
  match params.head?.join with
  | none => unauthorized srv cli (ascii "Bad request, no worker name!")
  | some workerFull =>
    match splitWorker workerFull with
    | none => unauthorized srv cli (ascii "Bad request, bad worker format!")
    | some (miner, worker) => handleAuthorize env srv cli miner worker time curtime

/-- `StratumServerCn::HandleAuthorize`. -/
def handleAuthorizeCn (env : Env R) (srv : Server p R) (cli : StratumClient) (params : Params)
    (worker : Bytes) (time curtime : Nat) : AuthOutcome p R :=
  match params.head?.join with
  | none => unauthorized srv cli (ascii "Bad request")
  | some miner => handleAuthorize env srv cli miner worker time curtime

end SickPool.Stratum
