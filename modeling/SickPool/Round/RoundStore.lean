import SickPool.Library.Run
import SickPool.Persistence.PersistenceLayer
import SickPool.Persistence.RedisManager

/-!
# The round and the block height in Redis

`SetNewBlockStats` and `SetClosedRound` write the fields of two hashes, `GetCurrentRound` and
`GetBlockHeight` read them. The command that should store the height begins with the key
instead of `HSET`, so the height is never stored, and the reader of the round takes the
estimated effort to be there.
-/
namespace SickPool.Round

open SickPool.Library SickPool.Library.Bytes SickPool.Library.Run SickPool.Utils
open SickPool.Persistence

/-! ## Hashes -/

/-- The hashes of Redis: the text under a key and a field. -/
abbrev HashStore := Bytes → Bytes → Option Arg

namespace HashStore

def hset (h : HashStore) (key field : Bytes) (value : Arg) : HashStore :=
  fun k f => if k = key ∧ f = field then some value else h k f

theorem hset_apply (h : HashStore) (key field : Bytes) (value : Arg) (k f : Bytes) :
    h.hset key field value k f = if k = key ∧ f = field then some value else h k f := rfl

/-- The effect of a command on the hashes. Only `HSET` has one; a name that Redis does not
know has none. -/
def command (h : HashStore) : Command → HashStore
  | [.text name, .text key, .text field, value] =>
    if name = ascii "HSET" then h.hset key field value else h
  | _ => h

def exec (h : HashStore) (pipe : Pipeline) : HashStore := pipe.foldl command h

end HashStore

/-! ## Numbers as texts -/

def roundHalfEven (q : ℚ) : Int :=
  if q - q.floor < 1 / 2 then q.floor
  else if 1 / 2 < q - q.floor then q.floor + 1
  else if q.floor % 2 = 0 then q.floor else q.floor + 1

/-- The number in the text of `std::to_string(double)`, which has six decimals. -/
def printed : Double → Double
  | .num q => .num (roundHalfEven (q * 1000000) / 1000000)
  | d => d

theorem roundHalfEven_intCast (n : Int) : roundHalfEven n = n := by
  simp [roundHalfEven, Rat.floor_intCast]

theorem printed_intCast (n : Int) : printed (.num n) = .num n := by
  have hcast : (n : ℚ) * 1000000 = ((n * 1000000 : Int) : ℚ) := by
    rw [Rat.intCast_mul]
    rfl
  have hback : (((n * 1000000 : Int) : ℚ)) / 1000000 = n := by
    rw [← hcast]
    exact mul_div_cancel_right₀ _ (by norm_num)
  rw [printed, hcast, roundHalfEven_intCast, hback]

/-- The conversions of texts other than those of `std::to_string`, and that of a reply to
`HGET` into the integer of `GetBlockHeight`. -/
structure Readers where
  stollText : Bytes → Option Int
  stodText : Bytes → Option Double
  height : Arg → Option Nat

/-- The integer a text begins with, as far as it fits 64 bits. -/
def int64? (n : Int) : Option Int := if -2 ^ 63 ≤ n ∧ n < 2 ^ 63 then some n else none

def truncate (q : ℚ) : Int := if 0 ≤ q then q.floor else -(-q).floor

namespace Readers

variable (rd : Readers)

/-- `std::stoll`; `none` when it throws. -/
def stoll : Arg → Option Int
  | .text s => rd.stollText s
  | .dec n => int64? n
  | .fixed d => match printed d with
    | .num q => int64? (truncate q)
    | _ => none

/-- `std::stod`; `none` when it throws. -/
def stod : Arg → Option Double
  | .text s => rd.stodText s
  | .dec n => some (.num n)
  | .fixed d => some (printed d)

theorem stoll_intCast {n : Int} (h : int64? n = some n) : rd.stoll (.fixed (.num n)) = some n := by
  have ht : truncate (n : ℚ) = n := by
    unfold truncate
    split
    · exact Rat.floor_intCast n
    · rw [← Rat.intCast_neg, Rat.floor_intCast, neg_neg]
  simp only [stoll, printed_intCast, ht, h]

end Readers

/-! ## Writers and readers -/

section Store

variable (k : KeyNames)

def appendSetRoundInfo (field : Prefix) (val : Double) : Command :=
  [.text (ascii "HSET"), .text k.roundStats, .text (enumName field), .fixed val]

/-- `AppendUpdateBlockHeight`; the key stands in the place of the command's name. -/
def appendUpdateBlockHeight (number : Nat) : Command :=
  [.text k.blockStats, .text (enumName .HEIGHT), .dec number]

def setNewBlockStats (h : HashStore) (height : Nat) (targetDiff : Double) : HashStore :=
  h.exec [appendSetRoundInfo k .ESTIMATED_EFFORT targetDiff, appendUpdateBlockHeight k height,
    [.text (ascii "PUBLISH"), .text k.block, .text (ascii "NEW BLOCK")]]

/-- `SetClosedRound`, given how `AddBlockSubmission` and `AddRoundRewards` end. -/
def setClosedRound (h : HashStore) (blockAdded rewardsAdded : Bool) (timeMs : Int64)
    (effortPercent : Double) : HashStore × RoundCloseRes :=
  if blockAdded = false then (h, .BAD_ADD_BLOCK)
  else if rewardsAdded = false then (h, .BAD_ADD_REWARDS)
  else (h.exec [appendSetRoundInfo k .START_TIME (.num timeMs.toInt),
      appendSetRoundInfo k .TOTAL_EFFORT 0, appendTsAdd k.minedBlockNumber timeMs.toInt 1,
      appendTsAdd k.blockEffortPercent timeMs.toInt effortPercent], .OK)

def roundField (h : HashStore) (field : Prefix) : Option Arg := h k.roundStats (enumName field)

/-- `GetBlockHeight`; `none` when it dereferences no value or cannot read it. -/
def getBlockHeight (rd : Readers) (h : HashStore) : Option Nat :=
  (h k.blockStats (enumName .HEIGHT)).bind rd.height

/-- How far `GetCurrentRound` comes: it calls itself again, a conversion throws, it
dereferences an absent field, or it returns with the store and what it leaves in `*rnd`. -/
inductive RoundRead where
  | running
  | threw
  | absentField
  | read (store : HashStore) (roundStartMs : Int) (totalEffort estimatedEffort : Double)

/-- The end of `GetCurrentRound`, which does not write `total_effort`. -/
def readRound (rd : Readers) (h : HashStore) (start : Arg) (totalEffort : Double) : RoundRead :=
  match rd.stoll start with
  | none => .threw
  | some roundStartMs =>
    match roundField k h .ESTIMATED_EFFORT with
    | none => .absentField
    | some estimated =>
      match rd.stod estimated with
      | none => .threw
      | some estimatedEffort => .read h roundStartMs totalEffort estimatedEffort

/-- `GetCurrentRound` with a number of calls; `now` is the clock and `totalEffort` what
`rnd->total_effort` held. -/
def getCurrentRound (rd : Readers) (now : Nat) : Nat → HashStore → Double → RoundRead
  | 0, _, _ => .running
  | calls + 1, h, totalEffort =>
    match roundField k h .TOTAL_EFFORT with
    | none => getCurrentRound rd now calls (h.exec [appendSetRoundInfo k .TOTAL_EFFORT 0])
        totalEffort
    | some _ =>
      match roundField k h .START_TIME with
      | none => getCurrentRound rd now calls
          (h.exec [appendSetRoundInfo k .START_TIME (.num now)]) totalEffort
      | some start => readRound k rd h start totalEffort

/-! ## What is stored -/

inductive StoreEvent where
  | setNewBlockStats (height : Nat) (targetDiff : Double)
  | setClosedRound (blockAdded rewardsAdded : Bool) (timeMs : Int64) (effortPercent : Double)

def storeStep (h : HashStore) : StoreEvent → HashStore
  | .setNewBlockStats height targetDiff => setNewBlockStats k h height targetDiff
  | .setClosedRound blockAdded rewardsAdded timeMs effortPercent =>
    (setClosedRound k h blockAdded rewardsAdded timeMs effortPercent).1

/-- Height and difficulty of a `SetNewBlockStats`. -/
def StoreEvent.newBlock : StoreEvent → Option (Nat × Double)
  | .setNewBlockStats height targetDiff => some (height, targetDiff)
  | .setClosedRound _ _ _ _ => none

/-- The time of a `SetClosedRound` that comes to write the round. -/
def StoreEvent.closed : StoreEvent → Option Int64
  | .setClosedRound true true timeMs _ => some timeMs
  | _ => none

def lastBlock (events : List StoreEvent) : Option (Nat × Double) :=
  (events.filterMap StoreEvent.newBlock).getLast?

def lastClosed (events : List StoreEvent) : Option Int64 :=
  (events.filterMap StoreEvent.closed).getLast?

variable {k}

theorem roundField_hset (h : HashStore) (field other : Prefix) (value : Arg) :
    roundField k (h.hset k.roundStats (enumName other) value) field =
      if field = other then some value else roundField k h field := by
  have hname : enumName field = enumName other ↔ field = other :=
    ⟨enumName_inj, congrArg enumName⟩
  simp only [roundField, HashStore.hset_apply, true_and, hname]

@[simp] theorem command_setRoundInfo (h : HashStore) (field : Prefix) (val : Double) :
    h.command (appendSetRoundInfo k field val) =
      h.hset k.roundStats (enumName field) (.fixed val) := by
  simp [HashStore.command, appendSetRoundInfo]

/-- The height is not stored. -/
@[simp] theorem command_updateBlockHeight (h : HashStore) (number : Nat) :
    h.command (appendUpdateBlockHeight k number) = h := rfl

@[simp] theorem command_tsAdd (h : HashStore) (key : Bytes) (time : Int) (value : Double) :
    h.command (appendTsAdd key time value) = h := rfl

theorem setNewBlockStats_eq (h : HashStore) (height : Nat) (targetDiff : Double) :
    setNewBlockStats k h height targetDiff =
      h.hset k.roundStats (enumName .ESTIMATED_EFFORT) (.fixed targetDiff) := by
  simp only [setNewBlockStats, HashStore.exec, List.foldl_cons, List.foldl_nil,
    command_setRoundInfo, command_updateBlockHeight]
  rfl

theorem setClosedRound_eq (h : HashStore) (timeMs : Int64) (effortPercent : Double) :
    (setClosedRound k h true true timeMs effortPercent).1 =
      (h.hset k.roundStats (enumName .START_TIME) (.fixed (.num timeMs.toInt))).hset k.roundStats
        (enumName .TOTAL_EFFORT) (.fixed 0) := by
  simp [setClosedRound, HashStore.exec]

theorem setClosedRound_failed {h : HashStore} {blockAdded rewardsAdded : Bool} {timeMs : Int64}
    {effortPercent : Double} (hf : (blockAdded && rewardsAdded) = false) :
    (setClosedRound k h blockAdded rewardsAdded timeMs effortPercent).1 = h := by
  unfold setClosedRound
  cases blockAdded
  · rfl
  · cases rewardsAdded
    · rfl
    · cases hf

/-- A closed round is written whole or not at all. -/
theorem storeStep_closed (h : HashStore) (blockAdded rewardsAdded : Bool) (timeMs : Int64)
    (effortPercent : Double) :
    (StoreEvent.closed (.setClosedRound blockAdded rewardsAdded timeMs effortPercent) = none ∧
      storeStep k h (.setClosedRound blockAdded rewardsAdded timeMs effortPercent) = h) ∨
    (StoreEvent.closed (.setClosedRound blockAdded rewardsAdded timeMs effortPercent) =
        some timeMs ∧
      storeStep k h (.setClosedRound blockAdded rewardsAdded timeMs effortPercent) =
        (h.hset k.roundStats (enumName .START_TIME) (.fixed (.num timeMs.toInt))).hset k.roundStats
          (enumName .TOTAL_EFFORT) (.fixed 0)) := by
  cases blockAdded
  · exact .inl ⟨rfl, setClosedRound_failed rfl⟩
  · cases rewardsAdded
    · exact .inl ⟨rfl, setClosedRound_failed rfl⟩
    · exact .inr ⟨rfl, setClosedRound_eq h timeMs effortPercent⟩

theorem storeStep_estimated (h : HashStore) (e : StoreEvent) :
    roundField k (storeStep k h e) .ESTIMATED_EFFORT =
      (e.newBlock.map (fun b => Arg.fixed b.2)).or (roundField k h .ESTIMATED_EFFORT) := by
  cases e with
  | setNewBlockStats height targetDiff =>
    rw [storeStep, setNewBlockStats_eq, roundField_hset]
    rfl
  | setClosedRound blockAdded rewardsAdded timeMs effortPercent =>
    obtain ⟨-, hs⟩ | ⟨-, hs⟩ := storeStep_closed (k := k) h blockAdded rewardsAdded timeMs
      effortPercent
    · rw [hs]
      rfl
    · rw [hs, roundField_hset, roundField_hset]
      rfl

theorem storeStep_start (h : HashStore) (e : StoreEvent) :
    roundField k (storeStep k h e) .START_TIME =
      (e.closed.map (fun t => Arg.fixed (.num t.toInt))).or (roundField k h .START_TIME) := by
  cases e with
  | setNewBlockStats height targetDiff =>
    rw [storeStep, setNewBlockStats_eq, roundField_hset]
    rfl
  | setClosedRound blockAdded rewardsAdded timeMs effortPercent =>
    obtain ⟨hc, hs⟩ | ⟨hc, hs⟩ := storeStep_closed (k := k) h blockAdded rewardsAdded timeMs
      effortPercent
    · rw [hs, hc]
      rfl
    · rw [hs, hc, roundField_hset, roundField_hset]
      rfl

theorem height_hset (h : HashStore) {field : Prefix} (hf : field ≠ .HEIGHT) (value : Arg) :
    h.hset k.roundStats (enumName field) value k.blockStats (enumName .HEIGHT) =
      h k.blockStats (enumName .HEIGHT) := by
  rw [HashStore.hset_apply, if_neg]
  exact fun hk => hf (enumName_inj hk.2).symm

theorem storeStep_height (h : HashStore) (e : StoreEvent) :
    storeStep k h e k.blockStats (enumName .HEIGHT) = h k.blockStats (enumName .HEIGHT) := by
  cases e with
  | setNewBlockStats height targetDiff =>
    rw [storeStep, setNewBlockStats_eq, height_hset h (by decide)]
  | setClosedRound blockAdded rewardsAdded timeMs effortPercent =>
    obtain ⟨-, hs⟩ | ⟨-, hs⟩ := storeStep_closed (k := k) h blockAdded rewardsAdded timeMs
      effortPercent
    · rw [hs]
    · rw [hs, height_hset _ (by decide), height_hset h (by decide)]

theorem getLast?_filterMap_map {α β : Type} (f : α → β) (writes : StoreEvent → Option α)
    (events : List StoreEvent) :
    (events.filterMap (fun e => (writes e).map f)).getLast? =
      (events.filterMap writes).getLast?.map f := by
  rw [← List.map_filterMap, List.getLast?_map]

theorem run_estimated (h : HashStore) (events : List StoreEvent) :
    roundField k (run (storeStep k) h events) .ESTIMATED_EFFORT =
      ((lastBlock events).map (fun b => Arg.fixed b.2)).or (roundField k h .ESTIMATED_EFFORT) := by
  rw [run_last_write (g := (roundField k · .ESTIMATED_EFFORT)) storeStep_estimated,
    getLast?_filterMap_map]
  rfl

theorem run_start (h : HashStore) (events : List StoreEvent) :
    roundField k (run (storeStep k) h events) .START_TIME =
      ((lastClosed events).map (fun t => Arg.fixed (.num t.toInt))).or
        (roundField k h .START_TIME) := by
  rw [run_last_write (g := (roundField k · .START_TIME)) storeStep_start,
    getLast?_filterMap_map]
  rfl

theorem run_height (h : HashStore) (events : List StoreEvent) :
    run (storeStep k) h events k.blockStats (enumName .HEIGHT) =
      h k.blockStats (enumName .HEIGHT) := by
  induction events generalizing h with
  | nil => rfl
  | cons e es ih => rw [run_cons, ih, storeStep_height]

/-! ## Loading the round -/

/-- The start time that `GetCurrentRound` reads: the stored one, else the time now. -/
def startArg (now : Nat) (h : HashStore) : Arg :=
  (roundField k h .START_TIME).getD (.fixed (.num now))

theorem exec_setRoundInfo (h : HashStore) (field : Prefix) (val : Double) :
    h.exec [appendSetRoundInfo k field val] =
      h.hset k.roundStats (enumName field) (.fixed val) := by
  simp [HashStore.exec]

section Calls

variable {rd : Readers} {now calls : Nat} {h : HashStore} {totalEffort : Double}

theorem getCurrentRound_whole {effort start : Arg}
    (he : roundField k h .TOTAL_EFFORT = some effort)
    (hs : roundField k h .START_TIME = some start) :
    getCurrentRound k rd now (calls + 1) h totalEffort = readRound k rd h start totalEffort := by
  simp only [getCurrentRound, he, hs]

theorem getCurrentRound_noStart {effort : Arg} (he : roundField k h .TOTAL_EFFORT = some effort)
    (hs : roundField k h .START_TIME = none) :
    getCurrentRound k rd now (calls + 1) h totalEffort =
      getCurrentRound k rd now calls
        (h.hset k.roundStats (enumName .START_TIME) (.fixed (.num now))) totalEffort := by
  simp only [getCurrentRound, he, hs, exec_setRoundInfo]

theorem getCurrentRound_noEffort (he : roundField k h .TOTAL_EFFORT = none) :
    getCurrentRound k rd now (calls + 1) h totalEffort =
      getCurrentRound k rd now calls
        (h.hset k.roundStats (enumName .TOTAL_EFFORT) (.fixed 0)) totalEffort := by
  simp only [getCurrentRound, he, exec_setRoundInfo]

/-- With a total effort stored, one more call is enough. -/
theorem getCurrentRound_stored (rd : Readers) (now calls : Nat) (totalEffort : Double)
    {h : HashStore} {effort : Arg} (he : roundField k h .TOTAL_EFFORT = some effort) :
    (calls < 2 ∧ getCurrentRound k rd now calls h totalEffort = .running) ∨
      ∃ store, roundField k store .ESTIMATED_EFFORT = roundField k h .ESTIMATED_EFFORT ∧
        getCurrentRound k rd now calls h totalEffort =
          readRound k rd store (startArg (k := k) now h) totalEffort := by
  cases calls with
  | zero => exact .inl ⟨by decide, rfl⟩
  | succ calls =>
    cases hs : roundField k h .START_TIME with
    | some start =>
      refine .inr ⟨h, rfl, ?_⟩
      rw [getCurrentRound_whole he hs, startArg, hs, Option.getD_some]
    | none =>
      rw [getCurrentRound_noStart he hs]
      cases calls with
      | zero => exact .inl ⟨by decide, rfl⟩
      | succ calls =>
        refine .inr ⟨_, roundField_hset h .ESTIMATED_EFFORT .START_TIME (.fixed (.num now)), ?_⟩
        rw [getCurrentRound_whole ((roundField_hset h .TOTAL_EFFORT .START_TIME _).trans he)
          (roundField_hset h .START_TIME .START_TIME _), startArg, hs, Option.getD_none]

/-- `GetCurrentRound` calls itself at most twice, and then reads the start time and the
estimated effort. -/
theorem getCurrentRound_cases (rd : Readers) (now calls : Nat) (h : HashStore)
    (totalEffort : Double) :
    (calls < 3 ∧ getCurrentRound k rd now calls h totalEffort = .running) ∨
      ∃ store, roundField k store .ESTIMATED_EFFORT = roundField k h .ESTIMATED_EFFORT ∧
        getCurrentRound k rd now calls h totalEffort =
          readRound k rd store (startArg (k := k) now h) totalEffort := by
  cases he : roundField k h .TOTAL_EFFORT with
  | some effort =>
    obtain ⟨hlt, hrun⟩ | hread := getCurrentRound_stored rd now calls totalEffort he
    · exact .inl ⟨by omega, hrun⟩
    · exact .inr hread
  | none =>
    cases calls with
    | zero => exact .inl ⟨by decide, rfl⟩
    | succ calls =>
      have hset := roundField_hset (k := k) h .TOTAL_EFFORT .TOTAL_EFFORT (.fixed 0)
      obtain ⟨hlt, hrun⟩ | ⟨store, hest, hread⟩ := getCurrentRound_stored rd now calls
        totalEffort hset
      · exact .inl ⟨by omega, (getCurrentRound_noEffort he).trans hrun⟩
      · refine .inr ⟨store, hest.trans (roundField_hset h .ESTIMATED_EFFORT .TOTAL_EFFORT _), ?_⟩
        rw [getCurrentRound_noEffort he, hread, startArg, startArg,
          roundField_hset h .START_TIME .TOTAL_EFFORT]
        rfl

theorem readRound_read {store store' : HashStore} {start : Arg} {startMs : Int}
    {total estimated : Double} :
    readRound k rd store start totalEffort = .read store' startMs total estimated ↔
      rd.stoll start = some startMs ∧
        (roundField k store .ESTIMATED_EFFORT).bind rd.stod = some estimated ∧
        store' = store ∧ total = totalEffort := by
  unfold readRound
  cases rd.stoll start with
  | none => simp
  | some n =>
    cases roundField k store .ESTIMATED_EFFORT with
    | none => simp
    | some text =>
      cases hd : rd.stod text with
      | none => simp [hd]
      | some d =>
        simp only [hd, RoundRead.read.injEq, Option.some.injEq, Option.bind_some]
        constructor
        · rintro ⟨rfl, rfl, rfl, rfl⟩
          exact ⟨rfl, rfl, rfl, rfl⟩
        · rintro ⟨rfl, rfl, rfl, rfl⟩
          exact ⟨rfl, rfl, rfl, rfl⟩

/-- `GetCurrentRound` returns exactly if the two texts it reads are numbers. -/
theorem getCurrentRound_read (rd : Readers) (now : Nat) (h : HashStore) (totalEffort : Double)
    (startMs : Int) (total estimated : Double) :
    (∃ calls store, getCurrentRound k rd now calls h totalEffort =
        .read store startMs total estimated) ↔
      rd.stoll (startArg (k := k) now h) = some startMs ∧
        (roundField k h .ESTIMATED_EFFORT).bind rd.stod = some estimated ∧ total = totalEffort := by
  constructor
  · rintro ⟨calls, store, hr⟩
    obtain ⟨-, hrun⟩ | ⟨store', hest, hread⟩ := getCurrentRound_cases (k := k) rd now calls h
      totalEffort
    · rw [hrun] at hr
      cases hr
    · rw [hread, readRound_read, hest] at hr
      exact ⟨hr.1, hr.2.1, hr.2.2.2⟩
  · rintro ⟨hstart, hest, htotal⟩
    obtain ⟨hlt, -⟩ | ⟨store, hest', hread⟩ := getCurrentRound_cases (k := k) rd now 3 h totalEffort
    · omega
    · refine ⟨3, store, ?_⟩
      rw [hread, readRound_read, hest']
      exact ⟨hstart, hest, rfl, htotal⟩

end Calls

/-! ## Round trips -/

section RoundTrip

variable (k) (rd : Readers) (init : HashStore) (events : List StoreEvent) (now : Nat)

/-- The start time written last: by `SetClosedRound`, else what was stored before, else the
default. -/
def expectedStart : Option Double :=
  match lastClosed events with
  | some timeMs => some (.num timeMs.toInt)
  | none => ((roundField k init .START_TIME).map rd.stod).getD (some (.num now))

def expectedEffort : Option Double :=
  match lastClosed events with
  | some _ => some 0
  | none => ((roundField k init .TOTAL_EFFORT).map rd.stod).getD (some 0)

def expectedEstimate : Option Double :=
  match lastBlock events with
  | some b => some b.2
  | none => (roundField k init .ESTIMATED_EFFORT).bind rd.stod

/-- After the calls the height of the last block is read, and `GetCurrentRound` returns and
leaves in a new `Round` what was written last. -/
structure RoundTrip : Prop where
  height : ∀ b, lastBlock events = some b →
    getBlockHeight k rd (run (storeStep k) init events) = some b.1
  round : ∃ calls store startMs total estimated,
    getCurrentRound k rd now calls (run (storeStep k) init events) 0 =
        .read store startMs total estimated ∧
      expectedStart k rd init events now = some (.num startMs) ∧
      expectedEffort k rd init events = some total ∧
      expectedEstimate k rd init events = some estimated

/-- The store held the height of the last block before the calls, and the difficulty of that
block has six decimals; without a block there was an estimated effort in the store; and
without a closed round the start time was absent or an integer, and the total effort absent
or 0. -/
structure Prepared : Prop where
  block : ∀ b, lastBlock events = some b →
    (init k.blockStats (enumName .HEIGHT)).bind rd.height = some b.1 ∧ printed b.2 = b.2
  estimate : lastBlock events = none →
    ((roundField k init .ESTIMATED_EFFORT).bind rd.stod).isSome
  start : lastClosed events = none → ∀ text, roundField k init .START_TIME = some text →
    ∃ n : Int, rd.stoll text = some n ∧ rd.stod text = some (.num n)
  effort : lastClosed events = none → ∀ text, roundField k init .TOTAL_EFFORT = some text →
    rd.stod text = some 0

variable {k rd init events now}

theorem start_iff (hnow : int64? now = some (now : Int)) :
    (∃ startMs, rd.stoll (startArg (k := k) now (run (storeStep k) init events)) = some startMs ∧
        expectedStart k rd init events now = some (.num startMs)) ↔
      (lastClosed events = none → ∀ text, roundField k init .START_TIME = some text →
        ∃ n : Int, rd.stoll text = some n ∧ rd.stod text = some (.num n)) := by
  unfold startArg expectedStart
  rw [run_start]
  cases lastClosed events with
  | some timeMs =>
    have ht : int64? timeMs.toInt = some timeMs.toInt :=
      if_pos ⟨timeMs.le_toInt, timeMs.toInt_lt⟩
    refine iff_of_true ⟨timeMs.toInt, ?_, rfl⟩ (fun h => nomatch h)
    exact rd.stoll_intCast ht
  | none =>
    cases roundField k init .START_TIME with
    | none =>
      refine iff_of_true ⟨now, ?_, rfl⟩ (fun _ text h => nomatch h)
      exact rd.stoll_intCast hnow
    | some text => simp

theorem effort_iff : expectedEffort k rd init events = some 0 ↔
    (lastClosed events = none → ∀ text, roundField k init .TOTAL_EFFORT = some text →
      rd.stod text = some 0) := by
  unfold expectedEffort
  cases lastClosed events with
  | some timeMs => simp
  | none => cases roundField k init .TOTAL_EFFORT <;> simp

theorem estimate_iff :
    (∃ estimated, (roundField k (run (storeStep k) init events) .ESTIMATED_EFFORT).bind rd.stod =
        some estimated ∧ expectedEstimate k rd init events = some estimated) ↔
      (∀ b, lastBlock events = some b → printed b.2 = b.2) ∧
        (lastBlock events = none →
          ((roundField k init .ESTIMATED_EFFORT).bind rd.stod).isSome) := by
  unfold expectedEstimate
  rw [run_estimated]
  cases lastBlock events with
  | some b =>
    constructor
    · rintro ⟨d, hread, hexpected⟩
      refine ⟨fun b' hb => ?_, fun h => nomatch h⟩
      obtain rfl := Option.some.inj hb
      exact Option.some.inj (hread.trans hexpected.symm)
    · rintro ⟨hprinted, -⟩
      exact ⟨b.2, congrArg some (hprinted b rfl), rfl⟩
  | none => simp [Option.isSome_iff_exists]

end RoundTrip

/-- The store is read back as it was written exactly if it held the height before, and the
other fields as described. -/
theorem round_trip_iff (k : KeyNames) (rd : Readers) (init : HashStore) (events : List StoreEvent)
    (timeUs : UInt64) :
    RoundTrip k rd init events (timeUs.toNat / 1000) ↔ Prepared k rd init events := by
  have hnow : int64? (timeUs.toNat / 1000 : Nat) = some ((timeUs.toNat / 1000 : Nat) : Int) := by
    have hlt := timeUs.toNat_lt
    refine if_pos ⟨?_, ?_⟩ <;> omega
  constructor
  · rintro ⟨hheight, calls, store, startMs, total, estimated, hread, hstart, heffort, hest⟩
    obtain ⟨hs, he, rfl⟩ := (getCurrentRound_read ..).mp ⟨calls, store, hread⟩
    obtain ⟨hprinted, habsent⟩ := estimate_iff.mp ⟨estimated, he, hest⟩
    refine ⟨fun b hb => ⟨?_, hprinted b hb⟩, habsent,
      (start_iff hnow).mp ⟨startMs, hs, hstart⟩, effort_iff.mp heffort⟩
    have h := hheight b hb
    rwa [getBlockHeight, run_height] at h
  · intro hp
    obtain ⟨startMs, hs, hstart⟩ := (start_iff hnow).mpr hp.start
    obtain ⟨estimated, he, hest⟩ := estimate_iff.mpr
      ⟨fun b hb => (hp.block b hb).2, hp.estimate⟩
    obtain ⟨calls, store, hread⟩ := (getCurrentRound_read rd (timeUs.toNat / 1000)
      (run (storeStep k) init events) 0 startMs 0 estimated).mpr ⟨hs, he, rfl⟩
    refine ⟨fun b hb => ?_, calls, store, startMs, 0, estimated, hread, hstart,
      effort_iff.mpr hp.effort, hest⟩
    rw [getBlockHeight, run_height]
    exact (hp.block b hb).1

/-- Decimal numbers only; the reply to `HGET` is read as a decimal number. -/
def sampleReaders : Readers where
  stollText := fun _ => none
  stodText := fun _ => none
  height
    | .dec n => some n.toNat
    | _ => none

def emptyStore : HashStore := fun _ _ => none

/-- On an empty store, a block of height 5 and then no height. Without a block
`GetCurrentRound` does not return. -/
theorem height_not_stored :
    ¬ RoundTrip ⟨ascii "ZANO"⟩ sampleReaders emptyStore [.setNewBlockStats 5 1000] 0 ∧
      getBlockHeight ⟨ascii "ZANO"⟩ sampleReaders
        (run (storeStep ⟨ascii "ZANO"⟩) emptyStore [.setNewBlockStats 5 1000]) = none ∧
      ∀ calls store startMs total estimated,
        getCurrentRound ⟨ascii "ZANO"⟩ sampleReaders 0 calls emptyStore 0 ≠
          .read store startMs total estimated := by
  have hnone : getBlockHeight ⟨ascii "ZANO"⟩ sampleReaders
      (run (storeStep ⟨ascii "ZANO"⟩) emptyStore [.setNewBlockStats 5 1000]) = none := by
    decide +kernel
  refine ⟨fun h => ?_, hnone, ?_⟩
  · have h5 := h.height (5, 1000) rfl
    rw [hnone] at h5
    cases h5
  · intro calls store startMs total estimated hread
    obtain ⟨-, hest, -⟩ := (getCurrentRound_read ..).mp ⟨calls, store, hread⟩
    cases hest

end Store

end SickPool.Round
