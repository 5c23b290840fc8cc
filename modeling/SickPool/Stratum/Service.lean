import SickPool.Library.Run
import Mathlib.Data.List.Nodup

/-!
# The service threads

`Service` takes a batch from the socket epoll, handles it, then does the same with the timer
epoll. A descriptor is armed once: an event of it that was fetched disarms it until `RearmFd`.
The socket and the timer of a connection are armed on their own, so that two threads may hold
an event of the same list element while one of them erases it.
-/
namespace SickPool.Stratum

open SickPool.Library.Run

def MAX_CONNECTION_EVENTS : Nat := 32

/-- `epoll_fd` and `timers_epoll_fd`. -/
inductive Epoll where
  | sockets
  | timers
  deriving DecidableEq

def Epoll.other : Epoll → Epoll
  | .sockets => .timers
  | .timers => .sockets

/-- The `sockfd` of a connection is watched by the one epoll, its `timerfd` by the other. The
connections are numbered as they were accepted; the number stands for the `connection_it`. -/
structure Descriptor where
  epoll : Epoll
  it : Nat
  deriving DecidableEq

def Descriptor.other (d : Descriptor) : Descriptor := ⟨d.epoll.other, d.it⟩

theorem Descriptor.eq_or_other {d d' : Descriptor} (h : d'.it = d.it) : d' = d ∨ d' = d.other := by
  obtain ⟨e, it⟩ := d
  obtain ⟨e', it'⟩ := d'
  obtain rfl : it' = it := h
  cases e <;> cases e' <;> simp [Descriptor.other, Epoll.other]

theorem Descriptor.other_ne (d : Descriptor) : d.other ≠ d := by
  obtain ⟨e, it⟩ := d
  cases e <;> simp [Descriptor.other, Epoll.other]

inductive EpollEvent where
  | listening
  | ready (d : Descriptor)
  deriving DecidableEq

/-- A thread in `ServiceSockets`: the epoll it waits for next, and what it has fetched and
not handled yet. -/
structure Servicer where
  next : Epoll
  events : List EpollEvent

/-- The list `connections`, the number of connections made, the armed descriptors and the
threads. The last two fields are a record: what `EraseClient` was called with, and the
iterators a handler dereferenced behind that. -/
structure Service (T : Type) where
  connections : List Nat
  created : Nat
  armed : Descriptor → Bool
  thread : T → Servicer
  erased : List Nat
  stale : List Nat

/-- What the calls of a handler give. `readable` is the result of `HandleReadable`, which has
armed the socket again if it is true. -/
structure Calls where
  accepted : Bool
  connected : Bool
  added : Bool
  epollErr : Bool
  readable : Bool
  timerRead : Bool
  hasAuthorized : Bool
  rearmed : Bool

/-- The steps of a thread. A wait gives a batch or fails. -/
inductive ServiceStep (T : Type) where
  | fetch (t : T) (batch : Option (List EpollEvent))
  | handle (t : T) (calls : Calls)

/-- `HandleEvent` for a socket, the condition of the timer loop for a timer: whether the
connection is kept. -/
def Calls.keeps (calls : Calls) : Epoll → Bool
  | .sockets => !calls.epollErr && calls.readable
  | .timers => calls.timerRead && calls.hasAuthorized && calls.rearmed

namespace Service

variable {T : Type}

def start : Service T where
  connections := []
  created := 0
  armed := fun _ => false
  thread := fun _ => ⟨.sockets, []⟩
  erased := []
  stale := []

def setThread [DecidableEq T] (s : Service T) (t : T) (thread : Servicer) : Service T :=
  { s with thread := Function.update s.thread t thread }

/-- What `epoll_wait` may report. The listening socket is never disarmed. -/
def Reportable (s : Service T) (epoll : Epoll) : EpollEvent → Prop
  | .listening => epoll = .sockets
  | .ready d => d.epoll = epoll ∧ s.armed d

instance Reportable.decidable (s : Service T) (epoll : Epoll) :
    ∀ e, Decidable (s.Reportable epoll e)
  | .listening => inferInstanceAs (Decidable (epoll = .sockets))
  | .ready d => inferInstanceAs (Decidable (d.epoll = epoll ∧ s.armed d))

/-- A batch a thread may find: it has handled the batch before, and every event is one of
the epoll it waits for. -/
def Fetchable (s : Service T) (t : T) (batch : List EpollEvent) : Prop :=
  (s.thread t).events = [] ∧ batch.Nodup ∧ batch.length ≤ MAX_CONNECTION_EVENTS ∧
    ∀ e ∈ batch, s.Reportable (s.thread t).next e

instance Fetchable.decidable (s : Service T) (t : T) (batch : List EpollEvent) :
    Decidable (s.Fetchable t batch) := by
  unfold Fetchable
  infer_instance

/-- `epoll_wait` with one-shot descriptors. -/
def fetched [DecidableEq T] (s : Service T) (t : T) (batch : List EpollEvent) : Service T :=
  { s with armed := fun d => s.armed d && !batch.contains (.ready d) }.setThread t
    ⟨(s.thread t).next.other, batch⟩

def rearmFd (s : Service T) (d : Descriptor) : Service T :=
  { s with armed := Function.update s.armed d true }

def eraseClient (s : Service T) (it : Nat) : Service T :=
  { s with
    connections := s.connections.erase it
    armed := fun d => s.armed d && !(d.it = it)
    erased := s.erased ++ [it] }

/-- `connections.emplace_back`. -/
def addConnection (s : Service T) : Service T :=
  { s with
    connections := s.connections ++ [s.created]
    created := s.created + 1 }

def handleNewConnection (s : Service T) (calls : Calls) : Service T :=
  if !calls.accepted then s
  else if !calls.connected || !calls.added then s.addConnection.eraseClient s.created
  else (s.addConnection.rearmFd ⟨.sockets, s.created⟩).rearmFd ⟨.timers, s.created⟩

/-- Both loops read through the iterator first. -/
def deref (s : Service T) (it : Nat) : Service T :=
  if it ∈ s.connections then s else { s with stale := s.stale ++ [it] }

theorem deref_of_mem {s : Service T} {it : Nat} (h : it ∈ s.connections) : s.deref it = s :=
  if_pos h

/-- The body of a loop of `Service`. -/
def handleFetched (s : Service T) (e : EpollEvent) (calls : Calls) : Service T :=
  match e with
  | .listening => s.handleNewConnection calls
  | .ready d => if calls.keeps d.epoll then (s.deref d.it).rearmFd d
      else (s.deref d.it).eraseClient d.it

/-- One step. A thread that has not handled its batch does not wait, and one without events
has none to handle. A failed wait for the sockets leaves `Service`, which is called again. -/
def step [DecidableEq T] (s : Service T) : ServiceStep T → Service T
  | .fetch t none => if (s.thread t).events = [] then s.setThread t ⟨.sockets, []⟩ else s
  | .fetch t (some batch) => if s.Fetchable t batch then s.fetched t batch else s
  | .handle t calls => match (s.thread t).events with
    | [] => s
    | e :: es => (s.setThread t ⟨(s.thread t).next, es⟩).handleFetched e calls

/-- Every element was erased at most once and none was used behind that. -/
def Safe (s : Service T) : Prop := s.erased.Nodup ∧ s.stale = []

instance Safe.decidable (s : Service T) : Decidable s.Safe := by
  unfold Safe
  infer_instance

/-- The thread has fetched an event of the descriptor and not handled it. -/
def Holds (s : Service T) (t : T) (d : Descriptor) : Prop := .ready d ∈ (s.thread t).events

/-- `EraseClient` is not called from the event of a descriptor while a thread holds an event
of the other descriptor of the connection. -/
def ErasesAlone (s : Service T) : ServiceStep T → Prop
  | .fetch _ _ => True
  | .handle t calls => ∀ d, (s.thread t).events.head? = some (.ready d) →
      calls.keeps d.epoll = false → ∀ t', ¬ s.Holds t' d.other

/-- What the threads keep while they erase alone. The last three fields are what one-shot
descriptors are for: an event is held by one thread, once, and its descriptor is disarmed. -/
structure Sound (s : Service T) : Prop where
  erased_nodup : s.erased.Nodup
  stale_nil : s.stale = []
  nodup : s.connections.Nodup
  lt_created : ∀ it ∈ s.connections, it < s.created
  erased_gone : ∀ it ∈ s.erased, it < s.created ∧ it ∉ s.connections
  armed_mem : ∀ d, s.armed d = true → d.it ∈ s.connections
  held_mem : ∀ t d, s.Holds t d → d.it ∈ s.connections
  held_disarmed : ∀ t d, s.Holds t d → s.armed d = false
  held_nodup : ∀ t, (s.thread t).events.Nodup
  held_once : ∀ t t' d, s.Holds t d → s.Holds t' d → t = t'

theorem Sound.safe {s : Service T} (h : s.Sound) : s.Safe := ⟨h.erased_nodup, h.stale_nil⟩

theorem start_sound : (start : Service T).Sound where
  erased_nodup := List.nodup_nil
  stale_nil := rfl
  nodup := List.nodup_nil
  lt_created := fun _ h => absurd h List.not_mem_nil
  erased_gone := fun _ h => absurd h List.not_mem_nil
  armed_mem := fun _ h => absurd h Bool.false_ne_true
  held_mem := fun _ _ h => absurd h List.not_mem_nil
  held_disarmed := fun _ _ _ => rfl
  held_nodup := fun _ => List.nodup_nil
  held_once := fun _ _ _ h => absurd h List.not_mem_nil

/-- A thread with a new list of events. -/
theorem holds_setThread [DecidableEq T] {s : Service T} {t t' : T} {thread : Servicer}
    {d : Descriptor} : (s.setThread t thread).Holds t' d ↔
      if t' = t then .ready d ∈ thread.events else s.Holds t' d := by
  unfold Holds setThread
  by_cases ht : t' = t
  · subst ht
    simp
  · simp [ht]

theorem holds_of_setThread [DecidableEq T] {s : Service T} {t t' : T} {thread : Servicer}
    {d : Descriptor} (hsub : thread.events.Sublist (s.thread t).events)
    (h : (s.setThread t thread).Holds t' d) : s.Holds t' d := by
  rw [holds_setThread] at h
  split at h
  · rename_i ht
    subst ht
    exact hsub.subset h
  · exact h

/-- A thread that forgets some of its events. -/
theorem Sound.setThread [DecidableEq T] {s : Service T} (h : s.Sound) {t : T} {thread : Servicer}
    (hsub : thread.events.Sublist (s.thread t).events) : (s.setThread t thread).Sound := by
  refine { h with
    held_mem := fun t' d hd => h.held_mem t' d (holds_of_setThread hsub hd)
    held_disarmed := fun t' d hd => h.held_disarmed t' d (holds_of_setThread hsub hd)
    held_nodup := ?_
    held_once := fun t' u d hd hu =>
      h.held_once t' u d (holds_of_setThread hsub hd) (holds_of_setThread hsub hu) }
  intro t'
  by_cases ht : t' = t
  · subst ht
    simpa [Service.setThread] using hsub.nodup (h.held_nodup t')
  · simpa [Service.setThread, ht] using h.held_nodup t'

/-- After a wait the thread holds its batch and the others what they held. -/
theorem holds_fetched [DecidableEq T] {s : Service T} {t t' : T} {batch : List EpollEvent}
    {d : Descriptor} (h : (s.fetched t batch).Holds t' d) :
    (t' = t ∧ .ready d ∈ batch) ∨ (t' ≠ t ∧ s.Holds t' d) := by
  rw [Service.fetched, holds_setThread] at h
  split at h
  · rename_i ht
    exact Or.inl ⟨ht, h⟩
  · rename_i ht
    exact Or.inr ⟨ht, h⟩

/-- A batch: its descriptors were armed, so that no thread held them, and are not any more. -/
theorem Sound.fetched [DecidableEq T] {s : Service T} (h : s.Sound) {t : T} {batch : List EpollEvent}
    (hf : s.Fetchable t batch) : (s.fetched t batch).Sound := by
  obtain ⟨-, hnd, -, hrep⟩ := hf
  have harmed : ∀ d, .ready d ∈ batch → s.armed d = true := fun d hd => (hrep _ hd).2
  have hfree : ∀ t' d, .ready d ∈ batch → ¬ s.Holds t' d := by
    intro t' d hd hheld
    have hoff := h.held_disarmed t' d hheld
    rw [harmed d hd] at hoff
    exact absurd hoff (by decide)
  refine { h with
    armed_mem := ?_
    held_mem := ?_
    held_disarmed := ?_
    held_nodup := ?_
    held_once := ?_ }
  · intro d hd
    have hd' : (s.armed d && !batch.contains (.ready d)) = true := hd
    exact h.armed_mem d (Bool.and_eq_true_iff.mp hd').1
  · intro t' d hd
    rcases holds_fetched hd with ⟨-, hb⟩ | ⟨-, hs⟩
    · exact h.armed_mem d (harmed d hb)
    · exact h.held_mem t' d hs
  · intro t' d hd
    show (s.armed d && !batch.contains (.ready d)) = false
    rcases holds_fetched hd with ⟨-, hb⟩ | ⟨-, hs⟩
    · rw [List.contains_iff_mem.mpr hb, Bool.not_true, Bool.and_false]
    · rw [h.held_disarmed t' d hs, Bool.false_and]
  · intro t'
    by_cases ht : t' = t
    · subst ht
      simpa [Service.fetched, Service.setThread] using hnd
    · simpa [Service.fetched, Service.setThread, ht] using h.held_nodup t'
  · intro t' u d hd hu
    rcases holds_fetched hd with ⟨ht, hb⟩ | ⟨-, hs⟩ <;>
      rcases holds_fetched hu with ⟨hu', hb'⟩ | ⟨-, hs'⟩
    · rw [ht, hu']
    · exact absurd hs' (hfree u d hb)
    · exact absurd hs (hfree t' d hb')
    · exact h.held_once t' u d hs hs'

theorem Sound.rearmFd {s : Service T} (h : s.Sound) {d : Descriptor} (hmem : d.it ∈ s.connections)
    (hfree : ∀ t, ¬ s.Holds t d) : (s.rearmFd d).Sound := by
  refine { h with
    armed_mem := ?_
    held_disarmed := ?_ }
  · intro d' hd
    by_cases hdd : d' = d
    · subst hdd
      exact hmem
    · simp only [Service.rearmFd, Function.update_of_ne hdd] at hd
      exact h.armed_mem d' hd
  · intro t d' hd
    have hdd : d' ≠ d := by
      rintro rfl
      exact hfree t hd
    simp only [Service.rearmFd, Function.update_of_ne hdd]
    exact h.held_disarmed t d' hd

theorem Sound.eraseClient {s : Service T} (h : s.Sound) {it : Nat} (hmem : it ∈ s.connections)
    (hfree : ∀ t d, d.it = it → ¬ s.Holds t d) : (s.eraseClient it).Sound where
  erased_nodup := by
    show (s.erased ++ [it]).Nodup
    rw [← List.concat_eq_append]
    refine h.erased_nodup.concat ?_
    intro hgone
    exact (h.erased_gone it hgone).2 hmem
  stale_nil := h.stale_nil
  nodup := h.nodup.erase it
  lt_created := fun a ha => h.lt_created a (List.mem_of_mem_erase ha)
  erased_gone := by
    intro a ha
    rcases List.mem_append.mp ha with ha | ha
    · obtain ⟨hlt, hgone⟩ := h.erased_gone a ha
      exact ⟨hlt, fun hm => hgone (List.mem_of_mem_erase hm)⟩
    · obtain rfl := List.mem_singleton.mp ha
      exact ⟨h.lt_created a hmem, h.nodup.not_mem_erase⟩
  armed_mem := by
    intro d hd
    have hd' : (s.armed d && !decide (d.it = it)) = true := hd
    rw [Bool.and_eq_true_iff] at hd'
    have hne : d.it ≠ it := by simpa using hd'.2
    exact (List.mem_erase_of_ne hne).mpr (h.armed_mem d hd'.1)
  held_mem := by
    intro t d hd
    have hne : d.it ≠ it := fun he => hfree t d he hd
    exact (List.mem_erase_of_ne hne).mpr (h.held_mem t d hd)
  held_disarmed := by
    intro t d hd
    show (s.armed d && !decide (d.it = it)) = false
    rw [h.held_disarmed t d hd, Bool.false_and]
  held_nodup := h.held_nodup
  held_once := h.held_once

theorem Sound.not_created {s : Service T} (h : s.Sound) (t : T) {d : Descriptor}
    (hd : d.it = s.created) : ¬ s.Holds t d := by
  intro hheld
  have hlt := h.lt_created d.it (h.held_mem t d hheld)
  omega

theorem Sound.addConnection {s : Service T} (h : s.Sound) : s.addConnection.Sound := by
  refine { h with
    nodup := ?_
    lt_created := ?_
    erased_gone := ?_
    armed_mem := fun d hd => List.mem_append_left _ (h.armed_mem d hd)
    held_mem := fun t d hd => List.mem_append_left _ (h.held_mem t d hd) }
  · show (s.connections ++ [s.created]).Nodup
    rw [← List.concat_eq_append]
    refine h.nodup.concat ?_
    intro hmem
    exact Nat.lt_irrefl _ (h.lt_created s.created hmem)
  · intro a ha
    show a < s.created + 1
    rcases List.mem_append.mp ha with ha | ha
    · have hlt := h.lt_created a ha
      omega
    · obtain rfl := List.mem_singleton.mp ha
      omega
  · intro a ha
    obtain ⟨hlt, hgone⟩ := h.erased_gone a ha
    refine ⟨Nat.lt_succ_of_lt hlt, ?_⟩
    intro hm
    rcases List.mem_append.mp hm with hm | hm
    · exact hgone hm
    · obtain rfl := List.mem_singleton.mp hm
      omega

theorem Sound.handleNewConnection {s : Service T} (h : s.Sound) (calls : Calls) :
    (s.handleNewConnection calls).Sound := by
  have hmem : s.created ∈ s.addConnection.connections := by simp [Service.addConnection]
  unfold Service.handleNewConnection
  split
  · exact h
  · split
    · exact h.addConnection.eraseClient hmem fun t d hd => h.not_created t hd
    · have hsock := h.addConnection.rearmFd (d := ⟨.sockets, s.created⟩) hmem
        fun t => h.not_created t rfl
      exact hsock.rearmFd (d := ⟨.timers, s.created⟩) hmem fun t => h.not_created t rfl

/-- Handling an event leaves the threads, forgets no use of an erased element, and makes no
element that was there before. -/
theorem handleFetched_frame (s : Service T) (e : EpollEvent) (calls : Calls) :
    (s.handleFetched e calls).thread = s.thread ∧
      s.stale <+: (s.handleFetched e calls).stale ∧
      s.created ≤ (s.handleFetched e calls).created ∧
      ∀ it ∈ (s.handleFetched e calls).connections, it ∈ s.connections ∨ it = s.created := by
  cases e with
  | listening =>
    simp only [handleFetched, handleNewConnection]
    split
    · exact ⟨rfl, List.prefix_rfl, Nat.le_refl _, fun it hit => Or.inl hit⟩
    · split
      · refine ⟨rfl, List.prefix_rfl, Nat.le_succ _, fun it hit => ?_⟩
        simpa [addConnection] using List.mem_of_mem_erase hit
      · refine ⟨rfl, List.prefix_rfl, Nat.le_succ _, fun it hit => ?_⟩
        simpa [addConnection, rearmFd] using hit
  | ready d =>
    have hderef : (s.deref d.it).thread = s.thread ∧ s.stale <+: (s.deref d.it).stale ∧
        (s.deref d.it).created = s.created ∧ (s.deref d.it).connections = s.connections := by
      unfold deref
      split
      · exact ⟨rfl, List.prefix_rfl, rfl, rfl⟩
      · exact ⟨rfl, List.prefix_append _ _, rfl, rfl⟩
    obtain ⟨hthread, hstale, hcreated, hconn⟩ := hderef
    rw [handleFetched]
    split
    · exact ⟨hthread, hstale, Nat.le_of_eq hcreated.symm,
        fun it hit => Or.inl (hconn ▸ hit)⟩
    · exact ⟨hthread, hstale, Nat.le_of_eq hcreated.symm,
        fun it hit => Or.inl (hconn ▸ List.mem_of_mem_erase hit)⟩

theorem stale_of_gone {s : Service T} {d : Descriptor} (hgone : d.it ∉ s.connections)
    (calls : Calls) : (s.handleFetched (.ready d) calls).stale ≠ [] := by
  have hderef : (s.deref d.it).stale = s.stale ++ [d.it] := by rw [deref, if_neg hgone]
  rw [handleFetched]
  split
  · show (s.deref d.it).stale ≠ []
    simp [hderef]
  · show (s.deref d.it).stale ≠ []
    simp [hderef]

/-- A handler that succeeds. -/
def Finishes : ServiceStep T → Prop
  | .fetch _ _ => False
  | .handle _ calls => ∀ epoll, calls.keeps epoll = true

def allGood : Calls := ⟨true, true, true, false, true, true, true, true⟩

theorem finishes_allGood (t : T) : Finishes (.handle t allGood) := by
  intro epoll
  cases epoll <;> rfl

theorem erasesAlone_of_finishes (s : Service T) {e : ServiceStep T} (h : Finishes e) :
    s.ErasesAlone e := by
  cases e with
  | fetch t batch => trivial
  | handle t calls =>
    intro d _ hkeeps
    rw [h d.epoll] at hkeeps
    exact absurd hkeeps (by decide)

/-- An element is gone and a thread will still read through its iterator, or has done so. -/
def Doomed (s : Service T) : Prop :=
  s.stale ≠ [] ∨ ∃ t d, s.Holds t d ∧ d.it ∉ s.connections ∧ d.it < s.created

/-- A thread that fetches holds nothing, so that the event in question is another thread's. -/
theorem doomed_fetch {s s' : Service T} (h : s.Doomed) {t : T}
    (hnil : (s.thread t).events = []) (hstale : s'.stale = s.stale)
    (hconn : s'.connections = s.connections) (hcreated : s'.created = s.created)
    (hthread : ∀ t', t' ≠ t → s'.thread t' = s.thread t') : s'.Doomed := by
  rcases h with hs | ⟨t', d, hd, hgone, hlt⟩
  · exact Or.inl (hstale ▸ hs)
  · have ht : t' ≠ t := by
      rintro rfl
      rw [Holds, hnil] at hd
      exact absurd hd List.not_mem_nil
    refine Or.inr ⟨t', d, ?_, hconn ▸ hgone, hcreated ▸ hlt⟩
    rw [Holds, hthread t' ht]
    exact hd

variable [DecidableEq T]

/-- The thread takes the first of its events: nobody holds that descriptor any more. -/
theorem Sound.taken {s : Service T} (h : s.Sound) {t : T} {d : Descriptor} {es : List EpollEvent}
    (he : (s.thread t).events = .ready d :: es) (next : Epoll) (t' : T) :
    ¬ (s.setThread t ⟨next, es⟩).Holds t' d := by
  have hnd := h.held_nodup t
  rw [he] at hnd
  have hhead : s.Holds t d := by
    rw [Holds, he]
    exact List.mem_cons_self
  intro hd
  rw [holds_setThread] at hd
  split at hd
  · exact (List.nodup_cons.mp hnd).1 hd
  · rename_i ht
    exact ht (h.held_once t' t d hd hhead)

theorem Sound.handleFetched {s : Service T} (h : s.Sound) {t : T} {e : EpollEvent}
    {es : List EpollEvent} (he : (s.thread t).events = e :: es) (calls : Calls)
    (hok : s.ErasesAlone (.handle t calls)) :
    ((s.setThread t ⟨(s.thread t).next, es⟩).handleFetched e calls).Sound := by
  have hsub : es.Sublist (s.thread t).events := by
    rw [he]
    exact List.sublist_cons_self e es
  have hpop : (s.setThread t ⟨(s.thread t).next, es⟩).Sound := h.setThread hsub
  cases e with
  | listening => exact hpop.handleNewConnection calls
  | ready d =>
    have hmem : d.it ∈ s.connections := h.held_mem t d (by rw [Holds, he]; exact List.mem_cons_self)
    have hderef : (s.setThread t ⟨(s.thread t).next, es⟩).deref d.it =
        s.setThread t ⟨(s.thread t).next, es⟩ := deref_of_mem hmem
    have hfree := h.taken he (s.thread t).next
    rw [Service.handleFetched, hderef]
    split
    · exact hpop.rearmFd hmem hfree
    · rename_i hkeep
      refine hpop.eraseClient hmem ?_
      -- the descriptor of the event itself was taken, the other one is held by nobody
      intro t' d' hit hd'
      rcases Descriptor.eq_or_other hit with rfl | rfl
      · exact hfree t' hd'
      · exact hok d (by rw [he]; rfl) (by simpa using hkeep) t' (holds_of_setThread hsub hd')

theorem step_sound (s : Service T) (e : ServiceStep T) (h : s.Sound) (hok : s.ErasesAlone e) :
    (s.step e).Sound := by
  cases e with
  | fetch t batch =>
    cases batch with
    | none =>
      rw [step]
      split
      · exact h.setThread (List.nil_sublist _)
      · exact h
    | some batch =>
      rw [step]
      split
      · rename_i hf
        exact h.fetched hf
      · exact h
  | handle t calls =>
    rw [step]
    split
    · exact h
    · rename_i e es he
      exact h.handleFetched he calls hok

/-- What a thread holds is still held when an event of another descriptor is taken. -/
theorem holds_taken {s : Service T} {t t' : T} {e : EpollEvent} {es : List EpollEvent}
    (he : (s.thread t).events = e :: es) (next : Epoll) {d : Descriptor} (hd : s.Holds t' d)
    (hne : ¬ (t' = t ∧ e = .ready d)) : (s.setThread t ⟨next, es⟩).Holds t' d := by
  refine holds_setThread.mpr ?_
  split
  · rename_i ht
    subst ht
    rw [Holds, he] at hd
    rcases List.mem_cons.mp hd with hhead | htail
    · exact absurd ⟨rfl, hhead.symm⟩ hne
    · exact htail
  · exact hd

/-- The step of a thread at its next event, for an element that is gone: it is the one read
through, or it is gone as before. -/
theorem gone_handle {s : Service T} {t t' : T} {e : EpollEvent} {es : List EpollEvent}
    (he : (s.thread t).events = e :: es) (calls : Calls) {d : Descriptor} (hd : s.Holds t' d)
    (hgone : d.it ∉ s.connections) (hlt : d.it < s.created) :
    (s.step (.handle t calls)).stale ≠ [] ∨
      ((s.step (.handle t calls)).Holds t' d ∧ d.it ∉ (s.step (.handle t calls)).connections ∧
        d.it < (s.step (.handle t calls)).created) := by
  have hstep : s.step (.handle t calls) =
      (s.setThread t ⟨(s.thread t).next, es⟩).handleFetched e calls := by rw [step, he]
  obtain ⟨hthread, -, hcreated, hconn⟩ :=
    handleFetched_frame (s.setThread t ⟨(s.thread t).next, es⟩) e calls
  rw [hstep]
  by_cases hread : t' = t ∧ e = .ready d
  · obtain ⟨rfl, rfl⟩ := hread
    exact Or.inl (stale_of_gone (s := s.setThread t' _) hgone calls)
  · refine Or.inr ⟨?_, ?_, Nat.lt_of_lt_of_le hlt hcreated⟩
    · rw [Holds, hthread]
      exact holds_taken he _ hd hread
    · intro hm
      rcases hconn d.it hm with hold | hnew
      · exact hgone hold
      · exact absurd hlt (Nat.not_lt.mpr (Nat.le_of_eq hnew.symm))

theorem doomed_step {s : Service T} (h : s.Doomed) (e : ServiceStep T) : (s.step e).Doomed := by
  cases e with
  | fetch t batch =>
    cases batch with
    | none =>
      rw [step]
      split
      · rename_i hnil
        exact doomed_fetch h hnil rfl rfl rfl fun t' ht => Function.update_of_ne ht _ _
      · exact h
    | some batch =>
      rw [step]
      split
      · rename_i hf
        exact doomed_fetch h hf.1 rfl rfl rfl fun t' ht => Function.update_of_ne ht _ _
      · exact h
  | handle t calls =>
    cases he : (s.thread t).events with
    | nil =>
      rw [step, he]
      exact h
    | cons e es =>
      rcases h with hs | ⟨t', d, hd, hgone, hlt⟩
      · obtain ⟨-, hpre, -, -⟩ :=
          handleFetched_frame (s.setThread t ⟨(s.thread t).next, es⟩) e calls
        rw [step, he]
        exact Or.inl fun hnil => hs (List.prefix_nil.mp (hnil ▸ hpre))
      · rcases gone_handle he calls hd hgone hlt with hs | hnext
        · exact Or.inl hs
        · exact Or.inr ⟨t', d, hnext⟩

/-- A thread that goes on through its batch reads an element that is gone. -/
theorem doomed_finish {s : Service T} (h : s.Doomed) :
    ∃ rest : List (ServiceStep T), (∀ e ∈ rest, Finishes e) ∧ (run step s rest).stale ≠ [] := by
  rcases h with hs | ⟨t, d, hd, hgone, hlt⟩
  · exact ⟨[], fun e he => absurd he List.not_mem_nil, hs⟩
  · generalize hes : (s.thread t).events = es
    induction es generalizing s with
    | nil =>
      rw [Holds, hes] at hd
      exact absurd hd List.not_mem_nil
    | cons e es ih =>
      have hfin := finishes_allGood t
      rcases gone_handle hes allGood hd hgone hlt with hs | ⟨hd', hgone', hlt'⟩
      · exact ⟨[.handle t allGood], by simpa using hfin, hs⟩
      · have hes' : ((s.step (.handle t allGood)).thread t).events = es := by
          rw [Service.step, hes, (handleFetched_frame _ _ _).1]
          simp [Service.setThread]
        obtain ⟨rest, hrest, hs⟩ := ih hd' hgone' hlt' hes'
        refine ⟨.handle t allGood :: rest, ?_, hs⟩
        intro e' he'
        rcases List.mem_cons.mp he' with rfl | he'
        · exact hfin
        · exact hrest e' he'

/-- `EraseClient` while another thread holds an event of the connection. -/
theorem Sound.doomed {s : Service T} (h : s.Sound) {e : ServiceStep T}
    (hbad : ¬ s.ErasesAlone e) : (s.step e).Doomed := by
  cases e with
  | fetch t batch => exact absurd trivial hbad
  | handle t calls =>
    simp only [ErasesAlone, not_forall, not_not] at hbad
    obtain ⟨d, hhead, hkeeps, t', hd⟩ := hbad
    obtain ⟨es, he⟩ := List.head?_eq_some_iff.mp hhead
    have hmem : d.it ∈ s.connections := h.held_mem t' d.other hd
    have hstep : s.step (.handle t calls) =
        (s.setThread t ⟨(s.thread t).next, es⟩).eraseClient d.it := by
      rw [Service.step, he]
      simp only [Service.handleFetched, hkeeps, Bool.false_eq_true, if_false]
      exact congrArg (·.eraseClient d.it) (deref_of_mem (s := s.setThread t _) hmem)
    rw [hstep]
    have hne : ¬ (t' = t ∧ EpollEvent.ready d = .ready d.other) := by
      rintro ⟨-, heq⟩
      exact d.other_ne (EpollEvent.ready.inj heq).symm
    exact Or.inr ⟨t', d.other, holds_taken he _ hd hne, h.nodup.not_mem_erase,
      h.lt_created d.it hmem⟩

theorem run_doomed {s : Service T} (h : s.Doomed) (events : List (ServiceStep T)) :
    (run step s events).Doomed := by
  induction events generalizing s with
  | nil => exact h
  | cons e es ih => exact ih (doomed_step h e)

theorem doomed_of_not_guarded {s : Service T} (h : s.Sound) {events : List (ServiceStep T)}
    (hbad : ¬ Guarded step ErasesAlone s events) : (run step s events).Doomed := by
  induction events generalizing s with
  | nil => exact absurd trivial hbad
  | cons e es ih =>
    by_cases hok : s.ErasesAlone e
    · exact ih (step_sound s e h hok) fun hg => hbad ⟨hok, hg⟩
    · exact run_doomed (h.doomed hok) es

theorem guarded_of_finishes (s : Service T) {rest : List (ServiceStep T)}
    (h : ∀ e ∈ rest, Finishes e) : Guarded step ErasesAlone s rest := by
  induction rest generalizing s with
  | nil => trivial
  | cons e es ih =>
    exact ⟨erasesAlone_of_finishes s (h e List.mem_cons_self),
      ih _ fun e' he' => h e' (List.mem_cons_of_mem e he')⟩

/-- In a run of the threads, and however the handlers succeed that are left at its end, every
element is erased at most once and not used afterwards, exactly if no connection is erased
while a thread holds an event of its other descriptor. -/
theorem erased_once_iff (events : List (ServiceStep T)) :
    (∀ rest, (∀ e ∈ rest, Finishes e) → Always step Safe start (events ++ rest)) ↔
      Guarded step ErasesAlone start events := by
  constructor
  · intro hsafe
    by_contra hbad
    obtain ⟨rest, hrest, hstale⟩ := doomed_finish (doomed_of_not_guarded start_sound hbad)
    have hlast := (hsafe rest hrest).last
    rw [run_append] at hlast
    exact hstale hlast.2
  · intro hg rest hrest
    have hall : Guarded step ErasesAlone start (events ++ rest) :=
      guarded_append.mpr ⟨hg, guarded_of_finishes _ hrest⟩
    exact always_of_guarded (fun _ h => h.safe) step_sound start_sound hall

/-- A client connects. One thread fetches the event of its socket, the other, behind an empty
batch of sockets, that of its timer. The first finds the socket closed and erases the
connection, the second reads the timer through the erased element and erases it again. -/
def closedAtTimeout : List (ServiceStep Bool) :=
  [.fetch true (some [.listening]), .handle true allGood, .fetch true (some []),
    .fetch true (some [.ready ⟨.sockets, 0⟩]), .fetch false (some []),
    .fetch false (some [.ready ⟨.timers, 0⟩]), .handle true { allGood with readable := false },
    .handle false { allGood with timerRead := false }]

theorem connection_erased_twice :
    (run step start closedAtTimeout).erased = [0, 0] ∧
      (run step start closedAtTimeout).stale = [0] ∧
      ¬ Always step Safe start closedAtTimeout := by
  refine ⟨by decide +kernel, by decide +kernel, ?_⟩
  intro h
  have hlast := h.last
  revert hlast
  decide +kernel

end Service

end SickPool.Stratum
