import SickPool.Stats.RedisStats

/-!
# Time series and their keys

A run of the pool creates the series of the pool, of its miners and of its workers, and then
adds to them. The keys are put together in four places that do not agree: `Init` creates every
key of the pool twice and never its compact key, and the number of workers of a miner is added
under a key without the word for miners.
-/
namespace SickPool.Persistence

open SickPool.Library SickPool.Library.Bytes

namespace Command

/-- The key of a `TS.CREATE`. -/
def creates : Command → Option Bytes
  | .text name :: .text key :: _ => if name = ascii "TS.CREATE" then some key else none
  | _ => none

/-- The key of a `TS.ADD`, or the destination of a `TS.CREATERULE`. -/
def uses : Command → Option Bytes
  | .text name :: .text key :: rest =>
    if name = ascii "TS.ADD" then some key
    else if name = ascii "TS.CREATERULE" then
      match rest with
      | .text dest :: _ => some dest
      | _ => none
    else none
  | _ => none

@[simp] theorem uses_appendTsAdd (key : Bytes) (time : Int) (value : Double) :
    uses (appendTsAdd key time value) = some key := rfl

@[simp] theorem creates_appendTsCreate (key : Bytes) (ts : TimeSeries) :
    creates (appendTsCreate key ts) = some key := rfl

@[simp] theorem creates_tsCreateRule (source dest : Bytes) (aggregation : List Bytes) :
    creates (tsCreateRule source dest aggregation) = none := rfl

@[simp] theorem uses_tsCreateRule (source dest : Bytes) (aggregation : List Bytes) :
    uses (tsCreateRule source dest aggregation) = some dest := rfl

end Command

/-- Every key in use was created before. -/
def CreatedBeforeUse (commands : List Command) : Prop :=
  ∀ before c after, commands = before ++ c :: after → ∀ key, Command.uses c = some key →
    ∃ d ∈ before, Command.creates d = some key

end SickPool.Persistence

namespace SickPool.Stats

open SickPool.Library SickPool.Library.Bytes SickPool.Utils SickPool.Persistence

/-- `CreateMinerStats` or `CreateWorkerStats`, with their arguments. -/
inductive Creation where
  | miner (addrLowercase : Bytes) (ali : Option Bytes) (id : Nat)
  | worker (fullId : FullId) (addressLowercase workerName : Bytes) (ali : Option Bytes)

/-- An `UpdateIntervalStats`, with the entries at that time and the miners in the order in
which the map is walked. -/
structure IntervalUpdate where
  workers : List (FullId × WorkerStats)
  miners : List (Nat × MinerStats)
  networkStats : NetworkStats
  updateTimeMs : Int

namespace IntervalConf

variable (conf : IntervalConf)

def creation : Creation → Pipeline
  | .miner addrLowercase ali id => conf.createMinerStats addrLowercase ali id
  | .worker fullId addressLowercase workerName ali =>
    conf.createWorkerStats fullId addressLowercase workerName ali

def update (u : IntervalUpdate) : Pipeline :=
  conf.updatePipeline u.workers u.miners u.networkStats u.updateTimeMs

/-- The commands of a run. -/
def commands (creations : List Creation) (updates : List IntervalUpdate) : List Command :=
  conf.redis.init ++ creations.flatMap conf.creation ++ updates.flatMap conf.update

theorem format_ne_left (a b : Bytes) : format [a, b] ≠ a := by
  intro h
  have hlen := congrArg List.length h
  rw [format_pair] at hlen
  simp at hlen

/-- The first rule of `Init` writes to a key that no command before it created. -/
theorem init_not_created (rest : List Command) : ¬ CreatedBeforeUse (conf.redis.init ++ rest) := by
  intro h
  let k := conf.redis.keyNames
  let rule := tsCreateRule k.hashratePool k.hashratePoolCompact
    [ascii "ROLL_AGGREGATION", ascii "roll_avg", ascii "12"]
  obtain ⟨d, hd, hkey⟩ := h
    ([.text (ascii "TS.CREATE"), .text k.hashratePool, .text (ascii "RETENTION"),
        .dec conf.redis.retention] ::
      [appendTsCreate k.hashratePool ⟨conf.redis.retention, .BLOCK, []⟩,
        appendTsCreate k.hashratePool ⟨conf.redis.retention * 7, .BLOCK, []⟩])
    rule _ rfl k.hashratePoolCompact rfl
  have hne : k.hashratePoolCompact ≠ k.hashratePool := format_ne_left _ _
  simp only [List.mem_cons, List.not_mem_nil, or_false] at hd
  rcases hd with rfl | rfl | rfl
  · exact hne (Option.some.inj hkey).symm
  · exact hne (Option.some.inj hkey).symm
  · exact hne (Option.some.inj hkey).symm

/-- In no run is every key in use created before. -/
theorem not_created_before_use (creations : List Creation) (updates : List IntervalUpdate) :
    ¬ CreatedBeforeUse (conf.commands creations updates) := by
  rw [commands, List.append_assoc]
  exact conf.init_not_created _

def sampleCreations : List Creation :=
  [.miner (ascii "addr") none 7, .worker ⟨7, 3⟩ (ascii "addr") (ascii "rig") none]

def sampleUpdate : IntervalUpdate where
  workers := [(⟨7, 3⟩, ⟨1, 0, 0, 600⟩)]
  miners := sampleConf.minerStatsMap [(⟨7, 3⟩, ⟨1, 0, 0, 600⟩)]
  networkStats := ⟨0, 0⟩
  updateTimeMs := 600000

/-- With one miner and one worker: the compact key of the pool's hashrate and the worker count
of the miner are in use and never created. -/
theorem zano_keys_not_created :
    ¬ CreatedBeforeUse (sampleConf.commands sampleCreations [sampleUpdate]) ∧
      (∀ key ∈ [ascii "ZANO:HASHRATE:POOL:COMPACT", ascii "ZANO:WORKER_COUNT:7"],
        some key ∈ (sampleConf.commands sampleCreations [sampleUpdate]).map Command.uses ∧
        some key ∉ (sampleConf.commands sampleCreations [sampleUpdate]).map Command.creates) := by
  refine ⟨?_, by decide +kernel⟩
  rw [commands, List.append_assoc]
  exact sampleConf.init_not_created _

end IntervalConf
end SickPool.Stats
