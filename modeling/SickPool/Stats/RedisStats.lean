import SickPool.Persistence.RedisManager
import SickPool.Stats.StatsManager

/-!
# Statistics in Redis

`RedisStats` and the part of `StatsManager` that ends an interval: what is queued for every
worker, every miner and the pool, and the counters set back to 0. None of the pipelines here
is executed.
-/
namespace SickPool.Stats

open SickPool.Library SickPool.Library.Bytes SickPool.Utils SickPool.Persistence

/-- `StatsConfig` and the multiplier of the coin, as far as an interval needs them. -/
structure IntervalConf where
  redis : RedisConf
  hashMultiplier : Double
  hashrateIntervalSeconds : Nat

/-- The fields of `WorkerStats` and `MinerStats` that are published. -/
structure IntervalStats where
  intervalHashrate : Double
  intervalValidShares : Nat
  intervalStaleShares : Nat
  intervalInvalidShares : Nat
  deriving DecidableEq

structure MinerStats extends IntervalStats where
  workerCount : Nat

structure NetworkStats where
  networkHr : Double
  difficulty : Double

def WorkerStats.resetInterval (_ws : WorkerStats) : WorkerStats := ⟨0, 0, 0, 0⟩

namespace IntervalConf

variable (conf : IntervalConf)

/-- `interval_hashrate` of an effort. -/
def hashrateOf (effort : Double) : Double :=
  conf.hashMultiplier * effort / .num conf.hashrateIntervalSeconds

/-- What a worker entry publishes. -/
def published (ws : WorkerStats) : IntervalStats where
  intervalHashrate := conf.hashrateOf ws.currentIntervalEffort
  intervalValidShares := ws.intervalValidShares
  intervalStaleShares := ws.intervalStaleShares
  intervalInvalidShares := ws.intervalInvalidShares

/-- `miner_stats_map[worker_id.miner_id]` after one more entry. -/
def addToMiner (ms : MinerStats) (s : IntervalStats) : MinerStats where
  intervalHashrate := ms.intervalHashrate + s.intervalHashrate
  intervalValidShares := (ms.intervalValidShares + s.intervalValidShares) % uint32Size
  intervalStaleShares := (ms.intervalStaleShares + s.intervalStaleShares) % uint32Size
  intervalInvalidShares := (ms.intervalInvalidShares + s.intervalInvalidShares) % uint32Size
  workerCount := if 0 < s.intervalHashrate then (ms.workerCount + 1) % uint32Size
    else ms.workerCount

/-- `miner_stats_map[miner_id]`, made on its first use, with one more entry. -/
def addMinerEntry (minerId : Nat) (s : IntervalStats) :
    List (Nat × MinerStats) → List (Nat × MinerStats)
  | [] => [(minerId, addToMiner ⟨⟨0, 0, 0, 0⟩, 0⟩ s)]
  | (m, ms) :: rest => if m = minerId then (m, addToMiner ms s) :: rest
      else (m, ms) :: addMinerEntry minerId s rest

/-- The loop of `StatsManager::UpdateIntervalStats`. -/
def minerStatsMap (workers : List (FullId × WorkerStats)) : List (Nat × MinerStats) :=
  workers.foldl (fun miners e => addMinerEntry e.1.minerId (conf.published e.2) miners) []

def keys : KeyNames := conf.redis.keyNames

/-- `AppendIntervalStatsUpdate`. -/
def appendIntervalStatsUpdate (addr pre : Bytes) (updateTimeMs : Int) (s : IntervalStats) :
    Pipeline :=
  let prefixAddr := format [pre, addr]
  [appendTsAdd (format [conf.keys.hashrate, prefixAddr]) updateTimeMs s.intervalHashrate,
    appendTsAdd (format [conf.keys.sharesValid, prefixAddr]) updateTimeMs
      (.num s.intervalValidShares),
    appendTsAdd (format [conf.keys.sharesInvalid, prefixAddr]) updateTimeMs
      (.num s.intervalInvalidShares),
    appendTsAdd (format [conf.keys.sharesStale, prefixAddr]) updateTimeMs
      (.num s.intervalStaleShares)]

/-- `AppendUpdateWorkerCount`. -/
def appendUpdateWorkerCount (minerId amount : Nat) (updateTimeMs : Int) : Command :=
  appendTsAdd (format [conf.keys.workerCount, fmtDec minerId]) updateTimeMs (.num amount)

def workerUpdate (updateTimeMs : Int) (e : FullId × WorkerStats) : Pipeline :=
  conf.appendIntervalStatsUpdate (fmtDec e.1.workerId) (enumName .WORKER) updateTimeMs
    (conf.published e.2)

def minerUpdate (updateTimeMs : Int) (e : Nat × MinerStats) : Pipeline :=
  conf.appendIntervalStatsUpdate (fmtDec e.1) (enumName .MINER) updateTimeMs e.2.toIntervalStats ++
    [[.text (ascii "ZADD"), .text conf.keys.minerIndexHashrate, .fixed e.2.intervalHashrate,
      .text (fmtDec e.1)],
    conf.appendUpdateWorkerCount e.1 e.2.workerCount updateTimeMs]

/-- The pipeline of `RedisStats::UpdateIntervalStats`, with the miners in the order in which
the map is walked. -/
def updatePipeline (workers : List (FullId × WorkerStats)) (miners : List (Nat × MinerStats))
    (ns : NetworkStats) (updateTimeMs : Int) : Pipeline :=
  let hashrates := workers.map (fun e => (conf.published e.2).intervalHashrate)
  workers.flatMap (conf.workerUpdate updateTimeMs) ++
    miners.flatMap (conf.minerUpdate updateTimeMs) ++
    [appendTsAdd conf.keys.hashrateNetwork updateTimeMs ns.networkHr,
      appendTsAdd conf.keys.difficulty updateTimeMs ns.difficulty,
      appendTsAdd conf.keys.hashratePool updateTimeMs hashrates.sum,
      appendTsAdd conf.keys.workerCountPool updateTimeMs
        (.num (hashrates.countP (0 < ·) % uint32Size : Nat)),
      appendTsAdd conf.keys.minerCount updateTimeMs
        (.num (miners.countP (fun e => 0 < e.2.intervalHashrate) % uint32Size : Nat))]

/-! ## New miners and workers -/

/-- `CreateMinerStats` with `AppendCreateStatsTsMiner`. -/
def createMinerStats (addrLowercase : Bytes) (ali : Option Bytes) (id : Nat) : Pipeline :=
  let k := conf.keys
  let idStr := fmtDec id
  [[.text (ascii "ZADD"), .text k.minerIndexRoundEffort, .text (ascii "0"), .text idStr],
    [.text (ascii "ZADD"), .text k.minerIndexHashrate, .text (ascii "0"), .text idStr]] ++
  [k.hashrate, k.hashrateAverage, k.sharesValid, k.sharesStale, k.sharesInvalid,
    k.workerCount].map (fun keyType => appendTsCreate (format [keyType, enumName .MINER, idStr])
      ⟨conf.redis.retention, .SUM, addressLabels addrLowercase ali⟩) ++
  [tsCreateRule (format [k.hashrate, enumName .MINER, idStr])
    (format [k.hashrateAverage, enumName .MINER, idStr])
    [ascii "ROLL_AGGREGATION", ascii "roll_avg", conf.redis.averageHashrateRatioStr]]

/-- `CreateWorkerStats` with `AppendCreateStatsTsWorker`. -/
def createWorkerStats (fullId : FullId) (addressLowercase workerName : Bytes)
    (ali : Option Bytes) : Pipeline :=
  let k := conf.keys
  let idStr := fmtDec fullId.workerId
  [k.hashrate, k.hashrateAverage, k.sharesValid, k.sharesStale, k.sharesInvalid].map
    (fun keyType => appendTsCreate (format [keyType, enumName .WORKER, idStr])
      ⟨conf.redis.retention, .SUM, workerLabels addressLowercase ali workerName⟩) ++
  [tsCreateRule (format [k.hashrate, enumName .WORKER, idStr])
    (format [k.hashrateAverage, enumName .WORKER, idStr])
    [ascii "ROLL_AGGREGATION", ascii "roll_avg", conf.redis.averageHashrateRatioStr]]

/-- A coin with intervals of ten minutes. -/
def sampleConf : IntervalConf := ⟨⟨ascii "ZANO", 86400, ascii "6"⟩, 1, 600⟩

end IntervalConf
end SickPool.Stats
