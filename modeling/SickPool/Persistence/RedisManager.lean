import SickPool.Library.Double
import SickPool.Persistence.Schema
import SickPool.Utils.HexUtils

/-!
# Commands to Redis

The commands the pool sends to Redis, as lists of arguments, and the keys in them. A pipeline
is the list of its commands; it has no effect on the store before `exec`. An argument printed
by `std::to_string` is kept as the number it prints.
-/
namespace SickPool.Persistence

open SickPool.Library SickPool.Library.Bytes SickPool.Utils

inductive Arg where
  | text (s : Bytes)
  | fixed (value : Double)
  | dec (n : Int)
  deriving DecidableEq

abbrev Command := List Arg

abbrev Pipeline := List Command

/-! ## Keys -/

/-- The enumerators of `Prefix` that occur in the keys and fields below. -/
inductive Prefix where
  | ROUND | EFFORT | WORKER_COUNT | MINER_COUNT | TOTAL_EFFORT | ESTIMATED_EFFORT | START_TIME
  | HASHRATE | SHARES | BLOCK | MINED_BLOCK | NETWORK | POOL | AVERAGE | VALID | INVALID | STALE
  | EFFORT_PERCENT | SOLVER | INDEX | DIFFICULTY | ROUND_EFFORT | MINER | WORKER | NUMBER | STATS
  | COMPACT | HEIGHT
  deriving DecidableEq

/-- `EnumName`: the name of the enumerator. -/
def enumName : Prefix → Bytes
  | .ROUND => ascii "ROUND"
  | .EFFORT => ascii "EFFORT"
  | .WORKER_COUNT => ascii "WORKER_COUNT"
  | .MINER_COUNT => ascii "MINER_COUNT"
  | .TOTAL_EFFORT => ascii "TOTAL_EFFORT"
  | .ESTIMATED_EFFORT => ascii "ESTIMATED_EFFORT"
  | .START_TIME => ascii "START_TIME"
  | .HASHRATE => ascii "HASHRATE"
  | .SHARES => ascii "SHARES"
  | .BLOCK => ascii "BLOCK"
  | .MINED_BLOCK => ascii "MINED_BLOCK"
  | .NETWORK => ascii "NETWORK"
  | .POOL => ascii "POOL"
  | .AVERAGE => ascii "AVERAGE"
  | .VALID => ascii "VALID"
  | .INVALID => ascii "INVALID"
  | .STALE => ascii "STALE"
  | .EFFORT_PERCENT => ascii "EFFORT_PERCENT"
  | .SOLVER => ascii "SOLVER"
  | .INDEX => ascii "INDEX"
  | .DIFFICULTY => ascii "DIFFICULTY"
  | .ROUND_EFFORT => ascii "ROUND_EFFORT"
  | .MINER => ascii "MINER"
  | .WORKER => ascii "WORKER"
  | .NUMBER => ascii "NUMBER"
  | .STATS => ascii "STATS"
  | .COMPACT => ascii "COMPACT"
  | .HEIGHT => ascii "HEIGHT"

def Prefix.all : List Prefix :=
  [.ROUND, .EFFORT, .WORKER_COUNT, .MINER_COUNT, .TOTAL_EFFORT, .ESTIMATED_EFFORT, .START_TIME,
    .HASHRATE, .SHARES, .BLOCK, .MINED_BLOCK, .NETWORK, .POOL, .AVERAGE, .VALID, .INVALID, .STALE,
    .EFFORT_PERCENT, .SOLVER, .INDEX, .DIFFICULTY, .ROUND_EFFORT, .MINER, .WORKER, .NUMBER, .STATS,
    .COMPACT, .HEIGHT]

theorem enumName_inj {a b : Prefix} (h : enumName a = enumName b) : a = b := by
  have hmem : ∀ a : Prefix, a ∈ Prefix.all := by
    intro a
    cases a <;> decide
  have hnodup : (Prefix.all.map enumName).Nodup := by decide +kernel
  exact List.inj_on_of_nodup_map hnodup (hmem a) (hmem b) h

/-- `Format`: the arguments with colons between them. -/
def format (args : List Bytes) : Bytes := (args.flatMap (· ++ [58])).dropLast

theorem format_pair (a b : Bytes) : format [a, b] = a ++ 58 :: b := by
  simp only [format, List.flatMap_cons, List.flatMap_nil, List.append_nil]
  rw [← List.append_assoc, List.dropLast_concat, List.append_assoc, List.singleton_append]

/-- The keys of a coin: `KeyNames` and `BlockKeyNames`. -/
structure KeyNames where
  coin : Bytes

namespace KeyNames

variable (k : KeyNames)

def round : Bytes := format [k.coin, enumName .ROUND]
def roundStats : Bytes := format [k.round, enumName .STATS]

def shares : Bytes := format [k.coin, enumName .SHARES]
def sharesValid : Bytes := format [k.shares, enumName .VALID]
def sharesStale : Bytes := format [k.shares, enumName .STALE]
def sharesInvalid : Bytes := format [k.shares, enumName .INVALID]

def hashrate : Bytes := format [k.coin, enumName .HASHRATE]
def hashrateAverage : Bytes := format [k.hashrate, enumName .AVERAGE]
def hashrateNetwork : Bytes := format [k.hashrate, enumName .NETWORK]
def hashrateNetworkCompact : Bytes := format [k.hashrateNetwork, enumName .COMPACT]
def hashratePool : Bytes := format [k.hashrate, enumName .POOL]
def hashratePoolCompact : Bytes := format [k.hashratePool, enumName .COMPACT]

def workerCount : Bytes := format [k.coin, enumName .WORKER_COUNT]
def workerCountPool : Bytes := format [k.workerCount, enumName .POOL]
def workerCountpCompact : Bytes := format [k.workerCountPool, enumName .COMPACT]

def minerCount : Bytes := format [k.coin, enumName .MINER_COUNT, enumName .POOL]
def minerCountCompact : Bytes := format [k.minerCount, enumName .COMPACT]

def difficulty : Bytes := format [k.coin, enumName .DIFFICULTY]
def difficultyCompact : Bytes := format [k.difficulty, enumName .COMPACT]

def miner : Bytes := format [k.coin, enumName .SOLVER]
def minerIndex : Bytes := format [k.miner, enumName .INDEX]
def minerIndexRoundEffort : Bytes := format [k.minerIndex, enumName .ROUND_EFFORT]
def minerIndexHashrate : Bytes := format [k.minerIndex, enumName .HASHRATE]

def block : Bytes := format [k.coin, enumName .BLOCK]
def blockStats : Bytes := format [k.block, enumName .STATS]
def blockEffortPercent : Bytes := format [k.block, enumName .EFFORT_PERCENT]
def minedBlockNumber : Bytes := format [k.coin, enumName .MINED_BLOCK, enumName .NUMBER]

end KeyNames

/-! ## Time series -/

inductive DuplicatePolicy where
  | BLOCK
  | SUM
  deriving DecidableEq

structure TimeSeries where
  retentionMs : Nat
  duplicatePolicy : DuplicatePolicy
  labels : List (Bytes × Bytes)

def TimeSeries.getCreateParams (ts : TimeSeries) (key : Bytes) : Command :=
  [.text (ascii "TS.CREATE"), .text key, .text (ascii "RETENTION"), .dec ts.retentionMs,
    .text (ascii "DUPLICATE_POLICY"),
    .text (if ts.duplicatePolicy = .SUM then ascii "SUM" else ascii "BLOCK"),
    .text (ascii "LABELS")] ++ ts.labels.flatMap (fun l => [.text l.1, .text l.2])

/-- The labels of `AddressTimeSeries`. -/
def addressLabels (address : Bytes) (ali : Option Bytes) : List (Bytes × Bytes) :=
  [(ascii "type", enumName .MINER), (ascii "address", address)] ++
    (ali.map (ascii "alias", ·)).toList

/-- The labels of `WorkerTimeSeries`, which changes the type. -/
def workerLabels (address : Bytes) (ali : Option Bytes) (workerName : Bytes) :
    List (Bytes × Bytes) :=
  (ascii "type", enumName .WORKER) :: (addressLabels address ali).tail ++
    [(ascii "worker_name", workerName)]

def appendTsCreate (key : Bytes) (ts : TimeSeries) : Command := ts.getCreateParams key

def appendTsAdd (key : Bytes) (time : Int) (value : Double) : Command :=
  [.text (ascii "TS.ADD"), .text key, .dec time, .fixed value]

def tsCreateRule (source dest : Bytes) (aggregation : List Bytes) : Command :=
  [.text (ascii "TS.CREATERULE"), .text source, .text dest] ++ aggregation.map .text

/-- What `RedisManager` reads of its configuration. -/
structure RedisConf where
  symbol : Bytes
  hashrateTtlSeconds : Nat
  averageHashrateRatioStr : Bytes

namespace RedisConf

variable (conf : RedisConf)

def keyNames : KeyNames := ⟨conf.symbol⟩

/-- `hashrate_ttl_seconds * 1000`, in 32 bits. -/
def retention : Nat := conf.hashrateTtlSeconds * 1000 % uint32Size

/-- The pairs of a key and its compact key that `Init` goes through. -/
def poolSeries : List (Bytes × Bytes) :=
  let k := conf.keyNames
  [(k.hashratePool, k.hashratePoolCompact), (k.hashrateNetwork, k.hashrateNetworkCompact),
    (k.workerCountPool, k.workerCountpCompact), (k.minerCount, k.minerCountCompact),
    (k.difficulty, k.difficultyCompact)]

/-- One turn of the loop of `Init`. The key is created twice, the second time with the
retention of the compact one. -/
def initSeries (key compact : Bytes) : Pipeline :=
  [appendTsCreate key ⟨conf.retention, .BLOCK, []⟩,
    appendTsCreate key ⟨conf.retention * 7, .BLOCK, []⟩,
    tsCreateRule key compact [ascii "ROLL_AGGREGATION", ascii "roll_avg", ascii "12"]]

/-- `RedisManager::Init`, which executes its pipeline. -/
def init : Pipeline :=
  [.text (ascii "TS.CREATE"), .text conf.keyNames.hashratePool, .text (ascii "RETENTION"),
    .dec conf.retention] ::
    conf.poolSeries.flatMap (fun s => conf.initSeries s.1 s.2)

end RedisConf
end SickPool.Persistence
