import SickPool.Library.Run
import SickPool.Persistence.MySqlManager
import SickPool.StaticConfig

/-!
# The block watcher

`BlockWatcher::CheckImmatureSubmissions` as a step on the member vector
`immature_block_submissions` and the database. A pass is given the stored chain
height, the daemon's reply to every header request, and whether each SQL statement
goes through. Between passes the pool process adds miners, workers and blocks.
-/
namespace SickPool.Blocks.BlockWatcher

open SickPool.Library SickPool.Persistence
open SickPool.Library.Run (run Guarded)

structure BlockHeaderRes where
  depth : Nat
  hash : Bytes
  deriving DecidableEq

/-- What one iteration of the loop may ask of the database. -/
inductive Statement where
  | flagOrphaned
  | matureRewards
  | settle
  deriving DecidableEq

/-- The surroundings of one pass. `header i h` answers the request of the `i`-th
iteration for height `h`; `none` is a failed request or reply. -/
structure Pass where
  currentHeight : Nat
  header : Nat → Nat → Option BlockHeaderRes
  up : Nat → Statement → Bool

/-- The watcher and the database. `matured` records the executions of
`MatureRewards` that took effect, `given` the statuses handed to
`UpdateBlockStatus`. -/
structure Watch where
  sql : Sql
  immatureBlockSubmissions : List BlockOverview
  matured : List (Nat × BlockStatus)
  given : List (Nat × BlockStatus)
  deriving DecidableEq

/-- The value of a `uint32_t` assigned to an `int`. -/
def toInt (n : Nat) : Int := if n < 2 ^ 31 then n else (n : Int) - 2 ^ 32

/-- `current_height > submission.height + COINBASE_MATURITY`, in 32-bit arithmetic. -/
def matures (confs : StaticConf) (currentHeight : Nat) (submission : BlockOverview) : Prop :=
  (submission.height + confs.COINBASE_MATURITY) % uint32Size < currentHeight

instance (confs : StaticConf) (h : Nat) (b : BlockOverview) : Decidable (matures confs h b) :=
  inferInstanceAs (Decidable (_ < _))

def confirmations (submission : BlockOverview) (header : BlockHeaderRes) : Int :=
  if submission.hash = header.hash then toInt header.depth else -1

def settledStatus (confs : StaticConf) (conf : Int) : BlockStatus :=
  if (confs.COINBASE_MATURITY : Int) < conf then .CONFIRMED else .ORPHANED

namespace Watch

def updateBlockStatus (w : Watch) (up : Bool) (id : Nat) (status : BlockStatus) : Watch :=
  { w with sql := w.sql.updateBlockStatus up id status, given := w.given ++ [(id, status)] }

def updateImmatureRewards (w : Watch) (up : Bool) (id : Nat) (status : BlockStatus) : Watch :=
  { w with
    sql := (w.sql.updateImmatureRewards up id status).1
    matured := if (w.sql.updateImmatureRewards up id status).2
      then w.matured ++ [(id, status)] else w.matured }

end Watch

/-- The note made when the daemon has another block at the submission's height. -/
def flagOrphaned (pass : Pass) (i : Nat) (submission : BlockOverview) (header : BlockHeaderRes)
    (w : Watch) : Watch :=
  if submission.hash ≠ header.hash ∧ submission.lastStatus ≠ .PENDING_ORPHANED then
    w.updateBlockStatus (pass.up i .flagOrphaned) submission.id .PENDING_ORPHANED
  else w

/-- `UpdateImmatureRewards` and `UpdateBlockStatus` with the final status. -/
def settle (pass : Pass) (i : Nat) (submission : BlockOverview) (status : BlockStatus)
    (w : Watch) : Watch :=
  (w.updateImmatureRewards (pass.up i .matureRewards) submission.id status).updateBlockStatus
    (pass.up i .settle) submission.id status

/-- One iteration of the loop, with whether the submission stays in the vector. -/
def checkSubmission (confs : StaticConf) (pass : Pass) (i : Nat) (submission : BlockOverview)
    (w : Watch) : Bool × Watch :=
  match pass.header i submission.height with
  | none => (true, w)
  | some header =>
    let w := flagOrphaned pass i submission header w
    if matures confs pass.currentHeight submission then
      (false, settle pass i submission (settledStatus confs (confirmations submission header)) w)
    else (true, w)

def checkLoop (confs : StaticConf) (pass : Pass) :
    Nat → List BlockOverview → Watch → List BlockOverview × Watch
  | _, [], w => ([], w)
  | i, submission :: rest, w =>
    let (stays, w) := checkSubmission confs pass i submission w
    let (kept, w) := checkLoop confs pass (i + 1) rest w
    (if stays then submission :: kept else kept, w)

/-- The vector a pass works on: what earlier passes left, then the rows loaded. -/
def pendingSubmissions (w : Watch) : List BlockOverview :=
  w.immatureBlockSubmissions ++ w.sql.loadImmatureBlocks

def checkImmatureSubmissions (confs : StaticConf) (pass : Pass) (w : Watch) : Watch :=
  let (kept, w) := checkLoop confs pass 0 (pendingSubmissions w) w
  { w with immatureBlockSubmissions := kept }

/-- The steps of the pool process and the watcher. -/
inductive Event where
  | addMiner (address : Bytes) (ali : Option Bytes) (minPayout joinTime : Nat)
  | addWorker (minerId : Nat) (name : Bytes) (joinTime : Nat)
  | newBlock (submission : BlockSubmission) (shares : RoundShares)
  | pass (pass : Pass)

/-- A block is added as `SetClosedRound` does it: the block row, then its rewards. -/
def newBlock (sql : Sql) (submission : BlockSubmission) (shares : RoundShares) : Sql :=
  match sql.addBlockSubmission true true submission with
  | (sql, id, true) => (sql.addRoundRewards (fun _ => true) id shares.entries).1
  | (sql, _, false) => sql

def step (confs : StaticConf) (w : Watch) : Event → Watch
  | .addMiner address ali minPayout joinTime =>
    { w with sql := (w.sql.execute true (·.addMiner address ali minPayout joinTime)).1 }
  | .addWorker minerId name joinTime =>
    { w with sql := (w.sql.execute true (·.addWorker minerId name joinTime)).1 }
  | .newBlock submission shares => { w with sql := newBlock w.sql submission shares }
  | .pass pass => checkImmatureSubmissions confs pass w

def init : Watch := ⟨⟨Db.empty, 0⟩, [], [], []⟩

end SickPool.Blocks.BlockWatcher
