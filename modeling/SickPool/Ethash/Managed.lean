import SickPool.Ethash.Progpow
import SickPool.Library.LazyTable

/-!
# Managed contexts

`get_block_longhash_sick` on any number of threads. `ethash/managed.cpp` keeps one full context
for the process behind a mutex and a pointer to a context for each thread; the dataset of a
context starts blank and `progpow::hash` writes an item when it first looks it up. A thread
goes through the phases below, one step at a time and in any order with the other threads. The
copy of a computed item into the dataset is not atomic: it is one step a word.

Pointers are numbers of contexts. A context is freed when the last pointer to it is gone, so
what is freed is never read again and the heap here keeps it.
-/
namespace SickPool.Ethash

open SickPool.Library

abbrev Dataset := LazyTable.Table Nat UInt32 64

/-- A context with the memory behind `full_dataset`, which `l1_cache` points to as well. -/
structure FullContext where
  context : EpochContext
  dataset : Dataset

variable (K : Keccak)

/-- `generic::create_epoch_context(build_light_cache, epoch_number, true)`, when the allocation
succeeds. -/
def createEpochContextFull (epochNumber : Nat) : FullContext where
  context := epochContext K epochNumber
  dataset := (List.range 64).foldl
    (fun d i => Function.update d i (calculateDatasetItem2048 K (epochContext K epochNumber) i))
    (fun _ => Vector.replicate 64 0)

def l1Cache (dataset : Dataset) (k : Nat) : UInt32 := (dataset (k / 64)).get (Fin.ofNat 64 k)

/-- `item.word64s[0] == 0`. -/
def notGenerated (item : Hash2048) : Bool := item.get 0 = 0 && item.get 1 = 0

/-- The arguments of `get_block_longhash_sick`. -/
structure Request where
  height : Nat
  headerHash : Hash256
  nonce : UInt64
deriving DecidableEq

def ethashHeightToEpoch (height : Nat) : Nat := height / 30000

def Request.epoch (q : Request) : Nat := ethashHeightToEpoch q.height

def Request.seed (q : Request) : UInt64 := keccakProgpow64 K q.headerHash q.nonce

/-- `progpow::hash` between two rounds. -/
structure Hashing where
  request : Request
  context : Nat
  round : Nat
  mix : Mix

/-- Where a thread is in `get_block_longhash_sick`. -/
inductive Phase where
  | idle
  /-- Before the test of the pointer of the thread. -/
  | entered (q : Request)
  /-- That pointer is reset; before the mutex is taken. -/
  | waiting (q : Request)
  /-- The mutex is held; before the test of the shared pointer. -/
  | locked (q : Request)
  /-- The shared pointer is reset; before the new context is there. -/
  | building (q : Request)
  /-- Before the shared pointer is copied and the mutex released. -/
  | sharing (q : Request)
  /-- `get_global_epoch_context_full` has returned. -/
  | returned (q : Request)
  /-- Before the test of the item that the round looks up. -/
  | lookup (h : Hashing)
  /-- The item is computed and its first `w` words are copied. -/
  | fill (h : Hashing) (w : Nat)
  /-- Before the item is read. -/
  | copy (h : Hashing)
  /-- The item is read; the rest of the round is to be done. -/
  | apply (h : Hashing) (item : Hash2048)

/-- The process. `log` has what each call ended with, `none` for an exception. -/
structure Process where
  phase : Nat → Phase
  threadLocalContextFull : Nat → Option Nat
  sharedContextFull : Option Nat
  sharedContextFullMutex : Option Nat
  heap : Nat → FullContext
  allocated : Nat
  log : List (Request × Option Result)

def Process.start : Process where
  phase := fun _ => .idle
  threadLocalContextFull := fun _ => none
  sharedContextFull := none
  sharedContextFullMutex := none
  heap := fun _ => createEpochContextFull K 0
  allocated := 0
  log := []

def Process.goto (p : Process) (t : Nat) (ph : Phase) : Process :=
  { p with phase := Function.update p.phase t ph }

/-- `ptr && ptr->epoch_number == epoch_number`. -/
def Process.pointsTo (p : Process) (ptr : Option Nat) (epoch : Nat) : Bool :=
  ptr.any fun c => (p.heap c).context.epochNumber = epoch

/-- The index of the item that is looked up. -/
def Process.item (p : Process) (h : Hashing) : Nat :=
  itemIndex (p.heap h.context).context h.round h.mix

/-- `item.word32s[w] = …` in the dataset of a context. -/
def Process.write (p : Process) (h : Hashing) (w : Fin 64) : Process :=
  let full := p.heap h.context
  let item := calculateDatasetItem2048 K full.context (p.item h)
  let dataset := LazyTable.writeWord full.dataset (p.item h) w (item.get w)
  { p with heap := Function.update p.heap h.context { full with dataset } }

/-- The next round, or the end of the call. -/
def Process.finishRound (p : Process) (t : Nat) (h : Hashing) (item : Hash2048) : Process :=
  let mix := roundWith (l1Cache (p.heap h.context).dataset) item h.round h.mix
    (periodState h.request.height)
  if h.round + 1 < numRounds then p.goto t (.lookup { h with round := h.round + 1, mix })
  else
    { p with log := p.log ++
        [(h.request, some (hashResult K h.request.headerHash (h.request.seed K) mix))] }.goto t .idle

/-- The next step of thread `t`. `calloc` says whether memory is there for a context. -/
def Process.step (p : Process) (t : Nat) (calloc : Bool) : Process :=
  match p.phase t with
  | .idle => p
  | .entered q =>
    if p.pointsTo (p.threadLocalContextFull t) q.epoch then p.goto t (.returned q)
    else
      { p with threadLocalContextFull := Function.update p.threadLocalContextFull t none }.goto t
        (.waiting q)
  | .waiting q =>
    if p.sharedContextFullMutex = none then
      { p with sharedContextFullMutex := some t }.goto t (.locked q)
    else p
  | .locked q =>
    if p.pointsTo p.sharedContextFull q.epoch then p.goto t (.sharing q)
    else { p with sharedContextFull := none }.goto t (.building q)
  | .building q =>
    if calloc then
      { p with
        heap := Function.update p.heap p.allocated (createEpochContextFull K q.epoch)
        allocated := p.allocated + 1
        sharedContextFull := some p.allocated }.goto t (.sharing q)
    else p.goto t (.sharing q)
  | .sharing q =>
    { p with
      threadLocalContextFull := Function.update p.threadLocalContextFull t p.sharedContextFull
      sharedContextFullMutex := none }.goto t (.returned q)
  | .returned q =>
    match p.threadLocalContextFull t with
    -- `CHECK_AND_ASSERT_THROW_MES(p_context, …)`
    | none => { p with log := p.log ++ [(q, none)] }.goto t .idle
    | some c => p.goto t (.lookup { request := q, context := c, round := 0, mix := initMix (q.seed K) })
  | .lookup h =>
    if notGenerated ((p.heap h.context).dataset (p.item h)) then p.goto t (.fill h 0)
    else p.goto t (.copy h)
  | .fill h w =>
    if hw : w < 64 then (p.write K h ⟨w, hw⟩).goto t (.fill h (w + 1))
    else p.goto t (.copy h)
  | .copy h => p.goto t (.apply h ((p.heap h.context).dataset (p.item h)))
  | .apply h item => p.finishRound K t h item

inductive Event where
  | call (t : Nat) (q : Request)
  | step (t : Nat) (calloc : Bool)

def Process.exec (p : Process) : Event → Process
  | .call t q =>
    match p.phase t with
    | .idle => p.goto t (.entered q)
    | _ => p
  | .step t calloc => p.step K t calloc

end SickPool.Ethash
