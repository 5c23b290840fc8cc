import SickPool.Stratum.Service

/-!
# Connections that wait to be accepted

The service threads with the accept queue of the listening socket. The socket is watched edge
triggered: an arrival makes an event pending, arrivals until it is fetched add none, and
`HandleNewConnection` accepts one connection for each event.
-/
namespace SickPool.Stratum

open SickPool.Library.Run

/-- The threads, the number of connections in the accept queue, and whether an event of the
listening socket is pending. -/
structure Backlog (T : Type) where
  service : Service T
  queue : Nat
  pending : Bool

/-- A connection gets into the queue, or a thread takes a step. `taken` is whether `accept4` takes
a connection off the queue; one that it takes may still fail in `setsockopt`. -/
inductive BacklogStep (T : Type) where
  | arrive
  | fetch (t : T) (batch : Option (List EpollEvent))
  | handle (t : T) (taken : Bool) (calls : Calls)

namespace Service

variable {T : Type}

/-- The thread has fetched an event of the listening socket and not handled it. -/
def Listens (s : Service T) (t : T) : Prop := .listening ∈ (s.thread t).events

theorem events_setThread [DecidableEq T] (s : Service T) (t t' : T) (thread : Servicer) :
    ((s.setThread t thread).thread t').events =
      if t' = t then thread.events else (s.thread t').events := by
  rw [setThread]
  by_cases ht : t' = t
  · subst ht
    simp
  · simp [ht]

/-- After a wait the thread has its batch. -/
theorem events_fetch [DecidableEq T] {s : Service T} {t : T} {batch : List EpollEvent}
    (h : s.Fetchable t batch) (t' : T) :
    ((s.step (.fetch t (some batch))).thread t').events =
      if t' = t then batch else (s.thread t').events := by
  rw [step, if_pos h, fetched]
  exact events_setThread ..

/-- A wait that fails is made by a thread without events. -/
theorem events_fetch_none [DecidableEq T] (s : Service T) (t t' : T) :
    ((s.step (.fetch t none)).thread t').events = (s.thread t').events := by
  rw [step]
  split
  · rename_i hidle
    rw [events_setThread]
    split
    · rename_i ht
      rw [ht, hidle]
    · rfl
  · rfl

/-- Handling an event takes it from the thread. -/
theorem events_handle [DecidableEq T] (s : Service T) (t t' : T) (calls : Calls) :
    ((s.step (.handle t calls)).thread t').events =
      if t' = t then (s.thread t').events.tail else (s.thread t').events := by
  rw [step]
  split
  · rename_i hnil
    split
    · rename_i ht
      rw [ht, hnil]
      rfl
    · rfl
  · rename_i e es hcons
    rw [(handleFetched_frame _ e calls).1, events_setThread]
    split
    · rename_i ht
      rw [ht, hcons]
      rfl
    · rfl

end Service

namespace Backlog

variable {T : Type}

def start : Backlog T := ⟨Service.start, 0, false⟩

/-- A batch has an event of the listening socket only if one is pending. -/
def Fetchable (s : Backlog T) (t : T) (batch : List EpollEvent) : Prop :=
  s.service.Fetchable t batch ∧ (.listening ∈ batch → s.pending = true)

instance Fetchable.decidable (s : Backlog T) (t : T) (batch : List EpollEvent) :
    Decidable (s.Fetchable t batch) := by
  unfold Fetchable
  infer_instance

/-- `HandleNewConnection`, which waits in `accept4` while the queue is empty. -/
def handleNewConnection [DecidableEq T] (s : Backlog T) (t : T) (taken : Bool) (calls : Calls) :
    Backlog T :=
  if s.queue = 0 then s
  else
    { s with
      service := s.service.step (.handle t { calls with accepted := taken && calls.accepted })
      queue := if taken then s.queue - 1 else s.queue }

def step [DecidableEq T] (s : Backlog T) : BacklogStep T → Backlog T
  | .arrive => { s with queue := s.queue + 1, pending := true }
  | .fetch t none => { s with service := s.service.step (.fetch t none) }
  | .fetch t (some batch) =>
    if s.Fetchable t batch then
      { s with
        service := s.service.step (.fetch t (some batch))
        pending := s.pending && !batch.contains .listening }
    else s
  | .handle t taken calls =>
    match (s.service.thread t).events.head? with
    | some .listening => s.handleNewConnection t taken calls
    | _ => { s with service := s.service.step (.handle t calls) }

/-- While a connection waits there is an event for it, pending or fetched and not handled. -/
def Watched (s : Backlog T) : Prop :=
  0 < s.queue → s.pending = true ∨ ∃ t, s.service.Listens t

/-- No event of the listening socket is pending or held by another thread. -/
def OnlyEvent (s : Backlog T) (t : T) : Prop :=
  s.pending = false ∧ ∀ t', t' ≠ t → ¬ s.service.Listens t'

/-- The handler of the only event finds a single connection, and takes it. -/
def AcceptsLast (s : Backlog T) : BacklogStep T → Prop
  | .handle t taken _ => (s.service.thread t).events.head? = some .listening → s.OnlyEvent t →
      s.queue = 0 ∨ s.queue = 1 ∧ taken = true
  | _ => True

/-! ## Steps -/

/-- The connections are watched, and no thread holds an event twice. -/
structure Attended (s : Backlog T) : Prop where
  watched : s.Watched
  nodup : ∀ t, (s.service.thread t).events.Nodup

theorem start_attended : (start : Backlog T).Attended where
  watched := fun h => absurd h (Nat.lt_irrefl 0)
  nodup := fun _ => List.nodup_nil

/-- A step that loses no event of the listening socket while the queue does not grow. -/
theorem Attended.of_listens {s s' : Backlog T} (h : s.Attended) (hqueue : s'.queue ≤ s.queue)
    (hkept : (s.pending = true ∨ ∃ t, s.service.Listens t) →
      s'.pending = true ∨ ∃ t, s'.service.Listens t)
    (hnodup : ∀ t, (s'.service.thread t).events.Nodup) : s'.Attended where
  watched := fun hwaits => hkept (h.watched (Nat.lt_of_lt_of_le hwaits hqueue))
  nodup := hnodup

section Step

variable [DecidableEq T] {s : Backlog T} {t : T}

theorem Attended.arrive (h : s.Attended) : (s.step .arrive).Attended where
  watched := fun _ => .inl rfl
  nodup := h.nodup

theorem Attended.fetch_none (h : s.Attended) : (s.step (.fetch t none)).Attended := by
  have hevents := s.service.events_fetch_none t
  refine h.of_listens ?_ ?_ ?_
  · exact Nat.le_refl _
  · intro hwatched
    rcases hwatched with hpending | ⟨t', ht'⟩
    · exact .inl hpending
    · refine .inr ⟨t', ?_⟩
      rw [Service.Listens, ← hevents] at ht'
      exact ht'
  · intro t'
    show ((s.service.step (.fetch t none)).thread t').events.Nodup
    rw [hevents]
    exact h.nodup t'

/-- The pending event goes to the thread that fetches it. -/
theorem Attended.fetch_some (h : s.Attended) (batch : List EpollEvent) :
    (s.step (.fetch t (some batch))).Attended := by
  rw [step]
  split
  · rename_i hfetch
    obtain ⟨hfetchable, -⟩ := hfetch
    have hevents := Service.events_fetch hfetchable
    refine h.of_listens ?_ ?_ ?_
    · exact Nat.le_refl _
    · intro hwatched
      by_cases hbatch : .listening ∈ batch
      · refine .inr ⟨t, ?_⟩
        show EpollEvent.listening ∈ ((s.service.step _).thread t).events
        rw [hevents, if_pos rfl]
        exact hbatch
      · rcases hwatched with hpending | ⟨t', ht'⟩
        · left
          show (s.pending && !batch.contains .listening) = true
          rw [hpending]
          simpa using hbatch
        · -- the thread that fetches held nothing
          have hne : t' ≠ t := by
            intro ht
            rw [Service.Listens, ht, hfetchable.1] at ht'
            exact absurd ht' List.not_mem_nil
          refine .inr ⟨t', ?_⟩
          show EpollEvent.listening ∈ ((s.service.step _).thread t').events
          rw [hevents, if_neg hne]
          exact ht'
    · intro t'
      show ((s.service.step _).thread t').events.Nodup
      rw [hevents]
      split
      · exact hfetchable.2.1
      · exact h.nodup t'
  · exact h

/-- After the head has been handled the threads hold the rest. -/
theorem nodup_handle (h : s.Attended) (calls : Calls) (t' : T) :
    ((s.service.step (.handle t calls)).thread t').events.Nodup := by
  rw [Service.events_handle]
  split
  · exact (h.nodup t').tail
  · exact h.nodup t'

theorem Attended.handle_other (h : s.Attended) {taken : Bool} {calls : Calls}
    (hhead : (s.service.thread t).events.head? ≠ some .listening) :
    (s.step (.handle t taken calls)).Attended := by
  have hstep : s.step (.handle t taken calls) =
      { s with service := s.service.step (.handle t calls) } := by
    rw [step]
    split
    · rename_i hlistening
      exact absurd hlistening hhead
    · rfl
  rw [hstep]
  refine h.of_listens ?_ ?_ ?_
  · exact Nat.le_refl _
  · intro hwatched
    rcases hwatched with hpending | ⟨t', ht'⟩
    · exact .inl hpending
    · refine .inr ⟨t', ?_⟩
      show EpollEvent.listening ∈ ((s.service.step _).thread t').events
      rw [Service.events_handle]
      split
      · rename_i ht
        rw [← ht] at hhead
        rw [Service.Listens] at ht'
        cases hevents : (s.service.thread t').events with
        | nil =>
          rw [hevents] at ht'
          exact absurd ht' List.not_mem_nil
        | cons e es =>
          rw [hevents] at ht' hhead
          rcases List.mem_cons.mp ht' with rfl | hmem
          · exact absurd rfl hhead
          · exact hmem
      · exact ht'
  · exact nodup_handle h calls

/-- What is left of the listening socket's events when one has been handled. -/
theorem listens_handle (h : s.Attended) (hhead : (s.service.thread t).events.head? = some .listening)
    (calls : Calls) (t' : T) :
    (s.service.step (.handle t calls)).Listens t' ↔ t' ≠ t ∧ s.service.Listens t' := by
  rw [Service.Listens, Service.events_handle]
  split
  · rename_i ht
    subst ht
    have hnodup := h.nodup t'
    cases hevents : (s.service.thread t').events with
    | nil => simp
    | cons e es =>
      rw [hevents] at hhead hnodup
      obtain rfl := Option.some.inj hhead
      simpa using (List.nodup_cons.mp hnodup).1
  · rename_i ht
    exact ⟨fun hl => ⟨ht, hl⟩, fun hl => hl.2⟩

/-- After an event of the listening socket the connections are watched exactly if another one is
there or the last of them was taken. -/
theorem watched_handle_iff (h : s.Attended)
    (hhead : (s.service.thread t).events.head? = some .listening) (taken : Bool) (calls : Calls) :
    (s.step (.handle t taken calls)).Watched ↔ s.AcceptsLast (.handle t taken calls) := by
  have hstep : s.step (.handle t taken calls) = s.handleNewConnection t taken calls := by
    rw [step, hhead]
  rw [hstep, AcceptsLast, forall_prop_of_true hhead, handleNewConnection]
  by_cases hempty : s.queue = 0
  · rw [if_pos hempty]
    exact iff_of_true h.watched (fun _ => .inl hempty)
  rw [if_neg hempty, Watched]
  have hlistens := fun t' =>
    listens_handle h hhead { calls with accepted := taken && calls.accepted } t'
  constructor
  · intro hwatched honly
    right
    by_contra hmore
    have hleft : 0 < if taken then s.queue - 1 else s.queue := by
      cases taken with
      | true =>
        show 0 < s.queue - 1
        have hne : s.queue ≠ 1 := fun h1 => hmore ⟨h1, rfl⟩
        omega
      | false =>
        show 0 < s.queue
        omega
    rcases hwatched hleft with hpending | ⟨t', ht'⟩
    · exact absurd hpending (by rw [honly.1]; decide)
    · obtain ⟨hne, hl⟩ := (hlistens t').mp ht'
      exact honly.2 t' hne hl
  · intro hlast hleft
    by_contra hnone
    rw [not_or, not_exists] at hnone
    have honly : s.OnlyEvent t := by
      refine ⟨Bool.not_eq_true _ ▸ hnone.1, ?_⟩
      intro t' hne hl
      exact hnone.2 t' ((hlistens t').mpr ⟨hne, hl⟩)
    rcases hlast honly with h0 | ⟨h1, rfl⟩
    · exact hempty h0
    · have hzero : 0 < s.queue - 1 := hleft
      omega

theorem Attended.step (h : s.Attended) {e : BacklogStep T} (hok : s.AcceptsLast e) :
    (s.step e).Attended := by
  match e with
  | .arrive => exact h.arrive
  | .fetch t none => exact h.fetch_none
  | .fetch t (some batch) => exact h.fetch_some batch
  | .handle t taken calls =>
    by_cases hhead : (s.service.thread t).events.head? = some .listening
    · refine ⟨(watched_handle_iff h hhead taken calls).mpr hok, ?_⟩
      intro t'
      rw [Backlog.step, hhead]
      dsimp only
      rw [handleNewConnection]
      split
      · exact h.nodup t'
      · exact nodup_handle h _ t'
    · exact h.handle_other hhead

theorem acceptsLast_of_watched (h : s.Attended) {e : BacklogStep T} (hwatched : (s.step e).Watched) :
    s.AcceptsLast e := by
  match e with
  | .arrive => trivial
  | .fetch _ _ => trivial
  | .handle t taken calls =>
    intro hhead
    exact (watched_handle_iff h hhead taken calls).mp hwatched hhead

end Step

/-! ## Runs -/

/-- No connection is stranded in a run exactly if in all of it the handler of the only event
accepts the last connection there is. -/
theorem watched_iff [DecidableEq T] (steps : List (BacklogStep T)) :
    Always step Watched (start : Backlog T) steps ↔ Guarded step AcceptsLast start steps :=
  always_iff_guarded_of_invariant (I := Attended) (fun _ h => h.watched)
    (fun _ _ h hok => h.step hok) (fun _ _ h hwatched => acceptsLast_of_watched h hwatched)
    start_attended steps

/-- Two connections come before the event is fetched. One is accepted, and there is no event
left for the other. -/
theorem second_connection_stranded :
    let calls : Calls := ⟨true, true, true, false, false, false, false, false⟩
    let steps : List (BacklogStep Unit) :=
      [.arrive, .arrive, .fetch () (some [.listening]), .handle () true calls]
    ((run step start steps).queue = 1 ∧ (run step start steps).service.connections = [0] ∧
        (run step start steps).pending = false ∧
        ∀ t, ((run step start steps).service.thread t).events = []) ∧
      ¬ Always step Watched start steps := by
  intro calls steps
  have hend : (run step start steps).queue = 1 ∧ (run step start steps).service.connections = [0] ∧
      (run step start steps).pending = false ∧
      ∀ t, ((run step start steps).service.thread t).events = [] := by
    refine ⟨by decide, by decide, by decide, ?_⟩
    intro t
    cases t
    decide
  refine ⟨hend, ?_⟩
  intro h
  obtain ⟨hqueue, -, hpending, hevents⟩ := hend
  rcases h.last (by rw [hqueue]; decide) with h1 | ⟨t, ht⟩
  · exact absurd h1 (by rw [hpending]; decide)
  · rw [Service.Listens, hevents t] at ht
    exact absurd ht List.not_mem_nil

end Backlog
end SickPool.Stratum
