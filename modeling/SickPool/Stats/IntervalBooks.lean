import SickPool.Library.Run
import SickPool.Library.Table
import SickPool.Stats.RedisStats

/-!
# Where the counted shares go

Shares are counted in `worker_stats_map`; `UpdateIntervalStats` queues the counters for Redis
and sets them to 0. The pipeline is not executed, so what an interval has counted is in neither
place afterwards.
-/
namespace SickPool.Stats

open SickPool.Library SickPool.Library.Bytes SickPool.Library.Run SickPool.Library.Table
open SickPool.Utils SickPool.Persistence

/-- A share that is counted, a valid one with its difficulty. -/
inductive ShareKind where
  | valid (diff : Double)
  | stale
  | invalid

inductive Counter where
  | valid
  | stale
  | invalid

def ShareKind.counter : ShareKind → Counter
  | .valid _ => .valid
  | .stale => .stale
  | .invalid => .invalid

def Counter.value : Counter → WorkerStats → Nat
  | .valid, ws => ws.intervalValidShares
  | .stale, ws => ws.intervalStaleShares
  | .invalid, ws => ws.intervalInvalidShares

def Counter.key (k : KeyNames) : Counter → Bytes
  | .valid => k.sharesValid
  | .stale => k.sharesStale
  | .invalid => k.sharesInvalid

/-- The share counted without an upper bound. -/
def ShareKind.count : ShareKind → WorkerStats → WorkerStats
  | .valid diff, ws => { ws with
      intervalValidShares := ws.intervalValidShares + 1
      currentIntervalEffort := ws.currentIntervalEffort + diff }
  | .stale, ws => { ws with intervalStaleShares := ws.intervalStaleShares + 1 }
  | .invalid, ws => { ws with intervalInvalidShares := ws.intervalInvalidShares + 1 }

/-- `AddValidShare`, `AddStaleShare` and `AddInvalidShare`. -/
def StatsManager.addShare (sm : StatsManager) (it : Nat) : ShareKind → StatsManager
  | .valid diff => sm.addValidShare it diff
  | .stale => sm.addStaleShare it
  | .invalid => sm.addInvalidShare it

inductive StatsEvent where
  | addShare (it : Nat) (kind : ShareKind)
  | addExistingWorker (workerId : FullId)
  | updateIntervalStats (order : List (Nat × MinerStats) → List (Nat × MinerStats))
      (ns : NetworkStats) (updateTimeMs : Int)

/-- An `UpdateIntervalStats`: the entries it found, what it queued, and whether it executed
that. -/
structure Interval where
  entries : List (FullId × WorkerStats)
  queued : Pipeline
  executed : Bool

/-- The commands of an interval that had an effect. -/
def Interval.written (i : Interval) : Pipeline := if i.executed then i.queued else []

/-- The statistics manager, the intervals it has ended, and a record of all that was added to
each of its entries. -/
structure StatsBooks where
  manager : StatsManager
  intervals : List Interval
  added : List (FullId × WorkerStats)

namespace StatsBooks

def start : StatsBooks := ⟨⟨[], []⟩, [], []⟩

def store (b : StatsBooks) : List Command := b.intervals.flatMap Interval.written

def step (conf : IntervalConf) (b : StatsBooks) : StatsEvent → StatsBooks
  | .addShare it kind =>
    { b with
      manager := b.manager.addShare it kind
      added := b.added.modify it (fun e => (e.1, kind.count e.2)) }
  | .addExistingWorker workerId =>
    { b with
      manager := (b.manager.addExistingWorker workerId).1
      added := b.added ++ [(workerId, WorkerStats.empty)] }
  | .updateIntervalStats order ns updateTimeMs =>
    let workers := b.manager.workerStatsMap
    -- `UpdateIntervalStats` returns without a call of `exec`
    { b with
      manager := { b.manager with
        workerStatsMap := workers.map (fun e => (e.1, e.2.resetInterval)) }
      intervals := b.intervals ++ [⟨workers,
        conf.updatePipeline workers (order (conf.minerStatsMap workers)) ns updateTimeMs, false⟩] }

/-! ## Conservation -/

/-- The values added to a time series. -/
def tsValues (key : Bytes) (commands : List Command) : List Double :=
  commands.filterMap (fun c => match c with
    | [.text name, .text k, .dec _, .fixed value] =>
      if name = ascii "TS.ADD" ∧ k = key then some value else none
    | _ => none)

/-- The key of a worker's or a miner's series. -/
def seriesKey (keyType : Bytes) (kind : Prefix) (id : Nat) : Bytes :=
  format [keyType, format [enumName kind, fmtDec id]]

/-- A counter over the entries of a worker. -/
def workerTotal (entries : List (FullId × WorkerStats)) (workerId : Nat) (c : Counter) : Nat :=
  sumWhere (fun e => decide (e.1.workerId = workerId)) (fun e => c.value e.2) entries

def workerEffort (entries : List (FullId × WorkerStats)) (workerId : Nat) : Double :=
  ((entries.filter (fun e => decide (e.1.workerId = workerId))).map
    (·.2.currentIntervalEffort)).sum

def minerTotal (entries : List (FullId × WorkerStats)) (minerId : Nat) (c : Counter) : Nat :=
  sumWhere (fun e => decide (e.1.minerId = minerId)) (fun e => c.value e.2) entries

def minerHashrate (conf : IntervalConf) (entries : List (FullId × WorkerStats)) (minerId : Nat) :
    Double :=
  ((entries.filter (fun e => decide (e.1.minerId = minerId))).map
    (fun e => conf.hashrateOf e.2.currentIntervalEffort)).sum

/-- Of every worker, what was written to Redis and what is still in memory make up what was
added. The effort is written as a hashrate. What an interval wrote for a miner are the sums
over the entries of its workers. -/
structure Conserved (conf : IntervalConf) (b : StatsBooks) : Prop where
  counts : ∀ workerId (c : Counter),
    (tsValues (seriesKey (c.key conf.keys) .WORKER workerId) b.store).sum +
        .num (workerTotal b.manager.workerStatsMap workerId c : Nat) =
      .num (workerTotal b.added workerId c : Nat)
  effort : ∀ workerId,
    (tsValues (seriesKey conf.keys.hashrate .WORKER workerId) b.store).sum +
        conf.hashrateOf (workerEffort b.manager.workerStatsMap workerId) =
      conf.hashrateOf (workerEffort b.added workerId)
  minerCounts : ∀ i ∈ b.intervals, ∀ minerId (c : Counter),
    ∀ value ∈ tsValues (seriesKey (c.key conf.keys) .MINER minerId) i.written,
      value = .num (minerTotal i.entries minerId c : Nat)
  minerHashrates : ∀ i ∈ b.intervals, ∀ minerId,
    ∀ value ∈ tsValues (seriesKey conf.keys.hashrate .MINER minerId) i.written,
      value = minerHashrate conf i.entries minerId

/-- A share is counted below 2^32, and an interval ends with every counter at 0. -/
def LosesNone (b : StatsBooks) : StatsEvent → Prop
  | .addShare it kind => ∀ e, b.manager.workerStatsMap[it]? = some e →
      kind.counter.value e.2 + 1 < uint32Size
  | .addExistingWorker _ => True
  | .updateIntervalStats _ _ _ => ∀ e ∈ b.manager.workerStatsMap, ∀ c : Counter, c.value e.2 = 0

/-! ## One event -/

/-- The share as the counters of 32 bits count it. -/
def wrapped (kind : ShareKind) (ws : WorkerStats) : WorkerStats :=
  match kind with
  | .valid diff => { ws with
      intervalValidShares := (ws.intervalValidShares + 1) % uint32Size
      currentIntervalEffort := ws.currentIntervalEffort + diff }
  | .stale => { ws with intervalStaleShares := (ws.intervalStaleShares + 1) % uint32Size }
  | .invalid => { ws with intervalInvalidShares := (ws.intervalInvalidShares + 1) % uint32Size }

theorem addShare_map (sm : StatsManager) (it : Nat) (kind : ShareKind) :
    (sm.addShare it kind).workerStatsMap =
      sm.workerStatsMap.modify it (fun e => (e.1, wrapped kind e.2)) := by
  cases kind <;> rfl

theorem wrapped_eq {kind : ShareKind} {ws : WorkerStats}
    (h : kind.counter.value ws + 1 < uint32Size) : wrapped kind ws = kind.count ws := by
  cases kind with
  | valid diff =>
    have hv : ws.intervalValidShares + 1 < uint32Size := h
    simp only [wrapped, ShareKind.count, Nat.mod_eq_of_lt hv]
  | stale =>
    have hv : ws.intervalStaleShares + 1 < uint32Size := h
    simp only [wrapped, ShareKind.count, Nat.mod_eq_of_lt hv]
  | invalid =>
    have hv : ws.intervalInvalidShares + 1 < uint32Size := h
    simp only [wrapped, ShareKind.count, Nat.mod_eq_of_lt hv]

theorem value_wrapped (kind : ShareKind) (ws : WorkerStats) :
    kind.counter.value (wrapped kind ws) = (kind.counter.value ws + 1) % uint32Size := by
  cases kind <;> rfl

theorem value_count (kind : ShareKind) (ws : WorkerStats) :
    kind.counter.value (kind.count ws) = kind.counter.value ws + 1 := by
  cases kind <;> rfl

/-- A list is modified at one place, or not at all. -/
theorem modify_split {α : Type} (rows : List α) (it : Nat) :
    (rows[it]? = none ∧ ∀ f, rows.modify it f = rows) ∨
      ∃ as e bs, rows[it]? = some e ∧ rows = as ++ e :: bs ∧
        ∀ f, rows.modify it f = as ++ f e :: bs := by
  induction rows generalizing it with
  | nil => exact .inl ⟨rfl, fun f => by simp⟩
  | cons a rows ih =>
    cases it with
    | zero => exact .inr ⟨[], a, rows, rfl, rfl, fun f => by simp⟩
    | succ it =>
      rcases ih it with ⟨hn, hm⟩ | ⟨as, e, bs, hs, rfl, hm⟩
      · exact .inl ⟨by simpa using hn, fun f => by simp [hm f]⟩
      · exact .inr ⟨a :: as, e, bs, by simpa using hs, rfl, fun f => by simp [hm f]⟩

/-- Nothing is lost: the entries hold all that was added, none of it was written, and an
entry without valid shares has no effort. -/
structure Kept (b : StatsBooks) : Prop where
  same : b.manager.workerStatsMap = b.added
  unwritten : ∀ i ∈ b.intervals, i.written = []
  idle : ∀ e ∈ b.added, e.2.intervalValidShares = 0 → e.2.currentIntervalEffort = 0

variable {conf : IntervalConf} {b : StatsBooks}

theorem store_eq_nil (h : ∀ i ∈ b.intervals, i.written = []) : b.store = [] :=
  List.flatMap_eq_nil_iff.mpr h

theorem unwritten_step (conf : IntervalConf) (e : StatsEvent)
    (h : ∀ i ∈ b.intervals, i.written = []) :
    ∀ i ∈ (b.step conf e).intervals, i.written = [] := by
  cases e with
  | addShare it kind => exact h
  | addExistingWorker workerId => exact h
  | updateIntervalStats order ns updateTimeMs =>
    intro i hi
    rcases List.mem_append.mp hi with hi | hi
    · exact h i hi
    · obtain rfl := List.mem_singleton.mp hi
      rfl

theorem Kept.conserved (hk : b.Kept) : b.Conserved conf where
  counts := by
    intro workerId c
    rw [store_eq_nil hk.unwritten, hk.same]
    exact zero_add _
  effort := by
    intro workerId
    rw [store_eq_nil hk.unwritten, hk.same]
    exact zero_add _
  minerCounts := by
    intro i hi minerId c value hv
    rw [hk.unwritten i hi] at hv
    simp [tsValues] at hv
  minerHashrates := by
    intro i hi minerId value hv
    rw [hk.unwritten i hi] at hv
    simp [tsValues] at hv

theorem kept_start : start.Kept := ⟨rfl, by simp [start], by simp [start]⟩

theorem resetInterval_eq {ws : WorkerStats} (hc : ∀ c : Counter, c.value ws = 0)
    (he : ws.currentIntervalEffort = 0) : ws.resetInterval = ws := by
  cases ws with
  | mk valid stale invalid effort =>
    obtain rfl : valid = 0 := hc .valid
    obtain rfl : stale = 0 := hc .stale
    obtain rfl : invalid = 0 := hc .invalid
    obtain rfl : effort = 0 := he
    rfl

theorem idle_count {kind : ShareKind} {ws : WorkerStats}
    (h : ws.intervalValidShares = 0 → ws.currentIntervalEffort = 0) :
    (kind.count ws).intervalValidShares = 0 → (kind.count ws).currentIntervalEffort = 0 := by
  cases kind with
  | valid diff => exact fun hv => absurd hv (Nat.succ_ne_zero _)
  | stale => exact h
  | invalid => exact h

theorem kept_step (e : StatsEvent) (hk : b.Kept) (hl : b.LosesNone e) : (b.step conf e).Kept := by
  have hunwritten := unwritten_step conf e hk.unwritten
  cases e with
  | addShare it kind =>
    rcases modify_split b.added it with ⟨-, hm⟩ | ⟨as, row, bs, hrow, hsplit, hm⟩
    · exact ⟨by simp only [step, addShare_map, hk.same, hm], hunwritten,
        by simpa only [step, hm] using hk.idle⟩
    · refine ⟨?_, hunwritten, ?_⟩
      · simp only [step, addShare_map, hk.same, hm]
        rw [wrapped_eq (hl row (by rw [hk.same]; exact hrow))]
      · intro e he
        simp only [step, hm] at he
        have hidle := hk.idle
        rw [hsplit] at hidle
        rcases List.mem_append.mp he with he | he
        · exact hidle e (List.mem_append_left _ he)
        · rcases List.mem_cons.mp he with rfl | he
          · exact idle_count (hidle row (by simp))
          · exact hidle e (by simp [he])
  | addExistingWorker workerId =>
    refine ⟨by simp only [step, StatsManager.addExistingWorker, hk.same], hunwritten, ?_⟩
    intro e he
    rcases List.mem_append.mp he with he | he
    · exact hk.idle e he
    · obtain rfl := List.mem_singleton.mp he
      exact fun _ => rfl
  | updateIntervalStats order ns updateTimeMs =>
    refine ⟨?_, hunwritten, hk.idle⟩
    -- all counters are 0, so setting them to 0 changes nothing
    have hreset : ∀ e ∈ b.added, (e.1, e.2.resetInterval) = id e := by
      intro e he
      have hzero := hl e (by rw [hk.same]; exact he)
      rw [resetInterval_eq hzero (hk.idle e he (hzero .valid))]
      rfl
    simp only [step, hk.same]
    rw [List.map_congr_left hreset, List.map_id]

theorem workerTotal_split (as bs : List (FullId × WorkerStats)) (e : FullId × WorkerStats)
    (c : Counter) :
    workerTotal (as ++ e :: bs) e.1.workerId c =
      workerTotal as e.1.workerId c + (c.value e.2 + workerTotal bs e.1.workerId c) := by
  simp [workerTotal, sumWhere_append, sumWhere_cons]

theorem value_resetInterval (c : Counter) (ws : WorkerStats) : c.value ws.resetInterval = 0 := by
  cases c <;> rfl

theorem workerTotal_reset (entries : List (FullId × WorkerStats)) (workerId : Nat) (c : Counter) :
    workerTotal (entries.map (fun e => (e.1, e.2.resetInterval))) workerId c = 0 := by
  induction entries with
  | nil => rfl
  | cons e entries ih =>
    rw [List.map_cons, workerTotal, sumWhere_cons, value_resetInterval]
    simpa [workerTotal] using ih

/-- A counter that passes 2^32, or one that is set back to 0, is missing from the sum. -/
theorem losesNone_of_conserved (e : StatsEvent) (hk : b.Kept)
    (hc : (b.step conf e).Conserved conf) : b.LosesNone e := by
  have hcount : ∀ workerId (c : Counter),
      workerTotal (b.step conf e).manager.workerStatsMap workerId c =
        workerTotal (b.step conf e).added workerId c := by
    intro workerId c
    have h := hc.counts workerId c
    rw [store_eq_nil (unwritten_step conf e hk.unwritten)] at h
    exact_mod_cast (Double.num.inj ((zero_add _).symm.trans h))
  cases e with
  | addShare it kind =>
    intro row hrow
    by_contra hlt
    rw [hk.same] at hrow
    obtain ⟨hnone, -⟩ | ⟨as, row', bs, hrow', -, hm⟩ := modify_split b.added it
    · rw [hnone] at hrow
      cases hrow
    · obtain rfl := Option.some.inj (hrow'.symm.trans hrow)
      have h := hcount row'.1.workerId kind.counter
      simp only [step, addShare_map, hk.same, hm] at h
      have hl := workerTotal_split as bs (row'.1, wrapped kind row'.2) kind.counter
      have hr := workerTotal_split as bs (row'.1, kind.count row'.2) kind.counter
      have hmod := Nat.mod_lt (kind.counter.value row'.2 + 1) (show 0 < uint32Size by decide)
      simp only [value_wrapped, value_count] at hl hr
      omega
  | addExistingWorker workerId => exact trivial
  | updateIntervalStats order ns updateTimeMs =>
    intro row hrow c
    have h := hcount row.1.workerId c
    simp only [step, workerTotal_reset] at h
    rw [hk.same] at hrow
    obtain ⟨as, bs, hsplit⟩ := List.append_of_mem hrow
    rw [hsplit, workerTotal_split] at h
    omega

/-- Over every sequence of calls the statistics are conserved exactly if no counter passes
2^32 and every interval ends with all counters at 0. -/
theorem conserved_iff (conf : IntervalConf) (events : List StatsEvent) :
    Always (step conf) (Conserved conf) start events ↔
      Guarded (step conf) LosesNone start events :=
  always_iff_guarded_of_invariant (I := Kept) (fun _ hk => hk.conserved)
    (fun _ e hk hl => kept_step e hk hl) (fun _ e hk hc => losesNone_of_conserved e hk hc)
    kept_start events

/-- One valid share and the end of its interval. -/
def lostShare : List StatsEvent :=
  [.addExistingWorker ⟨7, 3⟩, .addShare 0 (.valid 600), .updateIntervalStats id ⟨0, 0⟩ 600000]

/-- The share is queued for worker 3 and miner 7, not written, and no longer counted. -/
theorem interval_lost :
    ¬ Always (step .sampleConf) (Conserved .sampleConf) start lostShare ∧
      (run (step .sampleConf) start lostShare).store = [] ∧
      (run (step .sampleConf) start lostShare).manager.workerStatsMap =
        [(⟨7, 3⟩, WorkerStats.empty)] := by
  refine ⟨?_, by decide +kernel, by decide +kernel⟩
  intro h
  have hcount := h.2.2.2.counts 3 .valid
  revert hcount
  decide +kernel

end StatsBooks
end SickPool.Stats
