import SickPool.Library.Run
import SickPool.Stratum.StratumServer
import Mathlib.Logic.Function.Basic

/-!
# The server as a system

The clients, the worker threads that serve their requests, the control thread that takes
new block templates, and the main thread that sends the first job. One event is one
atomic step of a thread; a run interleaves them in any order. `HandleNewJob` holds the
lock on `clients` for reading, so clients come and go between two of its runs only.
-/
namespace SickPool.Stratum

open SickPool.Library SickPool.Library.Bytes SickPool.Library.Run SickPool.Crypto SickPool.Jobs
open SickPool.Persistence SickPool.Stats SickPool.Shares
open SickPool.Round (RoundManager)

variable {p : StratumProtocol} {R : Type}

/-! ## Requests -/

/-- The share of a submit request, as `HandleSubmit` of the protocol reads it. -/
def parseShare : {p : StratumProtocol} → Nat → Bytes → Params → Except Bytes (Option (Share p))
  | .ZEC, uninitialised, _, params => (parseShareZec uninitialised params).map some
  | .CN, uninitialised, worker, params => parseShareCn uninitialised worker params

/-- A share at which `GetHeaderData` reads through a null pointer; CN has none. -/
def readsThroughNull : {p : StratumProtocol} → Server p R → StratumClient → Share p → Call → Bool
  | .ZEC, srv, cli, share, call => readsNull srv cli share call
  | .CN, _, _, _, _ => false

/-- `HandleSubmit` of the protocol; `none` when it ends the process. -/
def handleSubmit : {p : StratumProtocol} → Env R → Server p R → StratumClient → Bytes → Params →
    Nat → Call → Option (Outcome p R)
  | .ZEC, env, srv, cli, _, params, uninitialised, call =>
    handleSubmitZec env srv cli params uninitialised call
  | .CN, env, srv, cli, worker, params, uninitialised, call =>
    handleSubmitCn env srv cli worker params uninitialised call

def handleLogin : {p : StratumProtocol} → Env R → Server p R → StratumClient → Bytes → Params →
    Nat → Nat → AuthOutcome p R
  | .ZEC, env, srv, cli, _, params, time, curtime =>
    handleAuthorizeZec env srv cli params time curtime
  | .CN, env, srv, cli, worker, params, time, curtime =>
    handleAuthorizeCn env srv cli params worker time curtime

/-! ## The machine -/

/-- The three loops of `HandleNewJob`: broadcast, kick slow clients, reset share sets. -/
inductive Stage where
  | broadcast
  | sweep
  | reset
  deriving DecidableEq

/-- Where a thread is in `HandleNewJob`: outside, or in a loop with the clients still to
visit. `blocked` is a thread that waits for the write lock under its own read lock. -/
inductive Phase (p : StratumProtocol) where
  | idle
  | loop (stage : Stage) (job : Job p) (rest : List Nat)
  | blocked

/-- The two threads that run `HandleNewJob`. -/
inductive Thread where
  | control
  | main
  deriving DecidableEq

/-- Where a service thread is in the constructor of `StratumClient`, which increments
`extra_nonce_counter` under no lock: outside, between its load and its store, or behind them,
with the value loaded. -/
inductive Construction where
  | idle
  | loaded (extraNonce : Nat)
  | stored (extraNonce : Nat)
  deriving DecidableEq

/-- `extra_nonce_counter`, the number of `StratumClient` objects made, and the service threads
in their constructor. -/
structure Nonces where
  extraNonceCounter : Nat
  created : Nat
  construction : Nat → Construction

/-- The state of the program. Connections are numbered as they are put into `clients`. -/
structure System (p : StratumProtocol) (R : Type) where
  server : Server p R
  nonces : Nonces
  clients : Nat → Option StratumClient
  connections : Nat
  phase : Thread → Phase p
  listening : Bool
  terminated : Bool

/-- One atomic step of a thread. A request comes with the connection, the worker name of
the request (CN only) and its `params`. -/
inductive Event (p : StratumProtocol) where
  | loadNonce (thread : Nat)
  | storeNonce (thread : Nat)
  | connect (thread : Nat) (old : Uninitialised) (time : Nat)
  | disconnect (conn : Nat)
  | authorize (conn : Nat) (worker : Bytes) (params : Params) (time curtime : Nat)
  | submit (conn : Nat) (worker : Bytes) (params : Params) (uninitialised : Nat) (call : Call)
  | timeout (conn : Nat) (time curtime : Nat)
  | pushPendingShares
  | blockNotify (rpctemplate : BlockTemplateRes p)
  | listen
  | visit (thread : Thread) (conn : Nat)
  | next (thread : Thread)

/-- The steps in which a service thread makes a client. -/
def connectClient (thread : Nat) (old : Uninitialised) (time : Nat) : List (Event p) :=
  [.loadNonce thread, .storeNonce thread, .connect thread old time]

namespace System

def start (srv : Server p R) : System p R where
  server := srv
  nonces := ⟨0, 0, fun _ => .idle⟩
  clients := fun _ => none
  connections := 0
  phase := fun _ => .idle
  listening := false
  terminated := false

def clientIds (s : System p R) : List Nat :=
  (List.range s.connections).filter (fun conn => (s.clients conn).isSome)

/-- No thread holds `clients_mutex`. -/
def unlocked (s : System p R) : Bool :=
  match s.phase .control, s.phase .main with
  | .idle, .idle => true
  | _, _ => false

def setClient (s : System p R) (conn : Nat) (cli : Option StratumClient) : System p R :=
  { s with clients := Function.update s.clients conn cli }

def setPhase (s : System p R) (thread : Thread) (phase : Phase p) : System p R :=
  { s with phase := Function.update s.phase thread phase }

def setConstruction (s : System p R) (thread : Nat) (construction : Construction) : System p R :=
  { s with nonces := { s.nonces with
      construction := Function.update s.nonces.construction thread construction } }

/-- The load of `extra_nonce_counter++` in the constructor of `StratumClient`. -/
def loadNonce (s : System p R) (thread : Nat) : System p R :=
  { s with nonces := { s.nonces with created := s.nonces.created + 1 } }.setConstruction thread
    (.loaded s.nonces.extraNonceCounter)

/-- Its store. -/
def storeNonce (s : System p R) (thread extraNonce : Nat) : System p R :=
  { s with nonces := { s.nonces with
      extraNonceCounter := (extraNonce + 1) % uint32Size } }.setConstruction thread
    (.stored extraNonce)

/-- The rest of the constructor and of `HandleConnected`. -/
def handleConnected (env : Env R) (s : System p R) (thread extraNonce : Nat) (old : Uninitialised)
    (time : Nat) : System p R :=
  { s with
    clients := Function.update s.clients s.connections (some (StratumClient.new old extraNonce time
      env.config.defaultDiff env.config.targetSharesRate env.config.retargetInterval))
    connections := s.connections + 1 }.setConstruction thread .idle

/-- `DisconnectClient` up to the lock. -/
def popWorker (s : System p R) (cli : StratumClient) : System p R :=
  { s with server := { s.server with
      statsManager := s.server.statsManager.popWorker cli.statsIt } }

def disconnectClient (s : System p R) (conn : Nat) (cli : StratumClient) : System p R :=
  (s.popWorker cli).setClient conn none

/-- `HandleTimeout`; a client without a worker is disconnected. -/
def handleTimeout (s : System p R) (conn : Nat) (cli : StratumClient) (time curtime : Nat) :
    System p R :=
  if cli.getHasAuthorized then s.setClient conn (some (cli.handleAdjust time curtime))
  else if s.unlocked then s.disconnectClient conn cli
  else s

def login (env : Env R) (s : System p R) (conn : Nat) (cli : StratumClient) (worker : Bytes)
    (params : Params) (time curtime : Nat) : System p R :=
  let o := handleLogin env s.server cli worker params time curtime
  { s with server := o.server }.setClient conn (some o.client)

/-- A submit request; an exception that escapes a worker thread, or a read through a null
pointer, ends the program. -/
def submit (env : Env R) (s : System p R) (conn : Nat) (cli : StratumClient) (worker : Bytes)
    (params : Params) (uninitialised : Nat) (call : Call) : System p R :=
  match handleSubmit env s.server cli worker params uninitialised call with
  | some o => { s with server := o.server }.setClient conn (some o.client)
  | none => { s with terminated := true }

/-- `PushPendingShares`, by the statistics thread. -/
def pushPending (env : Env R) (s : System p R) : System p R :=
  let (rm, store) := s.server.roundManager.pushPendingShares env.layer s.server.store
  { s with server := { s.server with roundManager := rm, store := store } }

/-- `HandleBlockNotify` up to the first client of `HandleNewJob`. -/
def handleBlockNotify (env : Env R) (s : System p R) (rpctemplate : BlockTemplateRes p) :
    System p R :=
  match s.server.jobManager.getNewJob env.hashes rpctemplate with
  | (jm, some job) => { s with server := { s.server with jobManager := jm } }.setPhase .control
      (.loop .broadcast job s.clientIds)
  | (_, none) => s

/-- `HandleNewJob()` of the main thread up to the first client. -/
def listen (s : System p R) : System p R :=
  { s with listening := true }.setPhase .main
    (.loop .broadcast s.server.jobManager.lastJob s.clientIds)

/-- The first loop: a pending difficulty takes effect with the job. -/
def broadcastJob (cli : StratumClient) : StratumClient :=
  if cli.getHasAuthorized ∧ cli.pendingDiff.isSome then cli.activatePendingDiff else cli

/-- One client in a loop of `HandleNewJob`. The sweep disconnects a client of too low a
difficulty, for which it needs the lock its own thread holds. -/
def visitClient (env : Env R) (s : System p R) (thread : Thread) (stage : Stage) (job : Job p)
    (rest : List Nat) (conn : Nat) (cli : StratumClient) : System p R :=
  match stage with
  | .broadcast => (s.setClient conn (some (broadcastJob cli))).setPhase thread
      (.loop .broadcast job rest)
  | .sweep => if cli.currentDiff < env.config.minimumDiff
      then (s.popWorker cli).setPhase thread .blocked
      else s.setPhase thread (.loop .sweep job rest)
  | .reset => (s.setClient conn (some cli.resetShareSet)).setPhase thread (.loop .reset job rest)

/-- The end of a loop of `HandleNewJob`. -/
def nextStage (env : Env R) (s : System p R) (thread : Thread) (stage : Stage) (job : Job p) :
    System p R :=
  match stage with
  | .broadcast => s.setPhase thread (.loop .sweep job s.clientIds)
  | .sweep => if job.base.clean
      then { s with server := { s.server with
          store := env.layer.setNewBlockStats s.server.store env.config.symbol job.base.height
            job.base.targetDiff } }.setPhase thread (.loop .reset job s.clientIds)
      else s.setPhase thread .idle
  | .reset => s.setPhase thread .idle

/-- One event. An event of a connection that is not there, or of a thread that is not at
that place or waits for a lock, does nothing. -/
def step (env : Env R) (s : System p R) (e : Event p) : System p R :=
  if s.terminated then s
  else match e with
    | .loadNonce thread => match s.nonces.construction thread with
      | .idle => s.loadNonce thread
      | _ => s
    | .storeNonce thread => match s.nonces.construction thread with
      | .loaded extraNonce => s.storeNonce thread extraNonce
      | _ => s
    | .connect thread old time => match s.nonces.construction thread with
      | .stored extraNonce =>
        if s.unlocked then s.handleConnected env thread extraNonce old time else s
      | _ => s
    | .disconnect conn => match s.clients conn with
      | some cli => if s.unlocked then s.disconnectClient conn cli else s
      | none => s
    | .authorize conn worker params time curtime => match s.clients conn with
      | some cli => s.login env conn cli worker params time curtime
      | none => s
    | .submit conn worker params uninitialised call => match s.clients conn with
      | some cli => s.submit env conn cli worker params uninitialised call
      | none => s
    | .timeout conn time curtime => match s.clients conn with
      | some cli => s.handleTimeout conn cli time curtime
      | none => s
    | .pushPendingShares => s.pushPending env
    | .blockNotify rpctemplate => match s.phase .control with
      | .idle => s.handleBlockNotify env rpctemplate
      | _ => s
    | .listen => if s.listening then s else s.listen
    | .visit thread conn => match s.phase thread with
      | .loop stage job rest => match s.clients conn with
        | some cli => if conn ∈ rest
            then s.visitClient env thread stage job (rest.erase conn) conn cli else s
        | none => s
      | _ => s
    | .next thread => match s.phase thread with
      | .loop stage job [] => s.nextStage env thread stage job
      | _ => s

end System
end SickPool.Stratum
