import Mathlib.Logic.Basic

/-!
# Runs of an event-driven machine

A machine is a total step function on states and events. A run folds the step
over a finite list of events. `Guarded` says that every event of a run meets a
side condition in the state in which it is taken; the invariant rule turns one
step lemma into a statement about every state such a run reaches.
-/
namespace SickPool.Library.Run

variable {σ ε : Type*}

/-- The state after a finite sequence of events. -/
def run (step : σ → ε → σ) (s : σ) (events : List ε) : σ := events.foldl step s

@[simp] theorem run_nil (step : σ → ε → σ) (s : σ) : run step s [] = s := rfl

@[simp] theorem run_cons (step : σ → ε → σ) (s : σ) (e : ε) (es : List ε) :
    run step s (e :: es) = run step (step s e) es := rfl

theorem run_append (step : σ → ε → σ) (s : σ) (es fs : List ε) :
    run step s (es ++ fs) = run step (run step s es) fs :=
  List.foldl_append

/-- Every event meets `ok` in the state in which it is taken. -/
def Guarded (step : σ → ε → σ) (ok : σ → ε → Prop) : σ → List ε → Prop
  | _, [] => True
  | s, e :: es => ok s e ∧ Guarded step ok (step s e) es

instance Guarded.decidable (step : σ → ε → σ) (ok : σ → ε → Prop)
    [∀ s e, Decidable (ok s e)] : ∀ s events, Decidable (Guarded step ok s events)
  | _, [] => inferInstanceAs (Decidable True)
  | s, e :: es =>
    have := Guarded.decidable step ok (step s e) es
    inferInstanceAs (Decidable (ok s e ∧ Guarded step ok (step s e) es))

/-- An invariant kept by every step that meets the side condition holds in every
state a guarded run reaches. -/
theorem invariant {step : σ → ε → σ} {ok : σ → ε → Prop} {I : σ → Prop}
    (hstep : ∀ s e, I s → ok s e → I (step s e)) {s : σ} (h0 : I s)
    {events : List ε} (hg : Guarded step ok s events) : I (run step s events) := by
  induction events generalizing s with
  | nil => exact h0
  | cons e es ih => exact ih (hstep s e h0 hg.1) hg.2

/-- A property of every state a run goes through, the first and the last included. -/
def Always (step : σ → ε → σ) (P : σ → Prop) : σ → List ε → Prop
  | s, [] => P s
  | s, e :: es => P s ∧ Always step P (step s e) es

theorem Always.head {step : σ → ε → σ} {P : σ → Prop} {s : σ} {events : List ε}
    (h : Always step P s events) : P s := by
  cases events with
  | nil => exact h
  | cons e es => exact h.1

theorem Always.last {step : σ → ε → σ} {P : σ → Prop} {s : σ} {events : List ε}
    (h : Always step P s events) : P (run step s events) := by
  induction events generalizing s with
  | nil => exact h
  | cons e es ih => exact ih h.2

/-- A property that an invariant gives holds throughout every run whose events all meet the
side condition that keeps the invariant. -/
theorem always_of_guarded {step : σ → ε → σ} {ok : σ → ε → Prop} {I P : σ → Prop}
    (hP : ∀ s, I s → P s) (hstep : ∀ s e, I s → ok s e → I (step s e)) {s : σ} (h0 : I s)
    {events : List ε} (hg : Guarded step ok s events) : Always step P s events := by
  induction events generalizing s with
  | nil => exact hP s h0
  | cons e es ih => exact ⟨hP s h0, ih (hstep s e h0 hg.1) hg.2⟩

theorem guarded_append {step : σ → ε → σ} {ok : σ → ε → Prop} {s : σ} {es fs : List ε} :
    Guarded step ok s (es ++ fs) ↔
      Guarded step ok s es ∧ Guarded step ok (run step s es) fs := by
  induction es generalizing s with
  | nil => exact ⟨fun h => ⟨trivial, h⟩, fun h => h.2⟩
  | cons e es ih => rw [List.cons_append, Guarded, Guarded, ih, run_cons, and_assoc]

/-- A property that an invariant of every step gives holds throughout every run. -/
theorem always_of_invariant {step : σ → ε → σ} {I P : σ → Prop} (hP : ∀ s, I s → P s)
    (hstep : ∀ s e, I s → I (step s e)) {s : σ} (h0 : I s) (events : List ε) :
    Always step P s events := by
  induction events generalizing s with
  | nil => exact hP s h0
  | cons e es ih => exact ⟨hP s h0, ih (hstep s e h0)⟩

/-- With an invariant that gives the property and is kept under the side condition, a
property that every other step breaks holds throughout a run exactly if the side condition
holds at every event. -/
theorem always_iff_guarded_of_invariant {step : σ → ε → σ} {ok : σ → ε → Prop} {I P : σ → Prop}
    (hP : ∀ s, I s → P s) (hok : ∀ s e, I s → ok s e → I (step s e))
    (hbad : ∀ s e, I s → P (step s e) → ok s e) {s : σ} (h0 : I s) (events : List ε) :
    Always step P s events ↔ Guarded step ok s events := by
  induction events generalizing s with
  | nil => exact ⟨fun _ => trivial, fun _ => hP s h0⟩
  | cons e es ih =>
    rw [Always, Guarded, and_iff_right (hP s h0)]
    constructor
    · intro h
      have he := hbad s e h0 h.head
      exact ⟨he, (ih (hok s e h0 he)).mp h⟩
    · rintro ⟨he, h⟩
      exact (ih (hok s e h0 he)).mpr h

/-- When a step keeps a property exactly if the side condition holds, a run that starts
with it has it throughout exactly if the side condition holds at every event. -/
theorem always_iff_guarded {step : σ → ε → σ} {ok : σ → ε → Prop} {P : σ → Prop}
    (hstep : ∀ s e, P s → (P (step s e) ↔ ok s e)) {s : σ} (h0 : P s) (events : List ε) :
    Always step P s events ↔ Guarded step ok s events :=
  always_iff_guarded_of_invariant (fun _ h => h) (fun s e h => (hstep s e h).mpr)
    (fun s e h => (hstep s e h).mp) h0 events

/-- Two side conditions that agree where an invariant holds guard the same runs. -/
theorem guarded_congr {step : σ → ε → σ} {A B : σ → ε → Prop} {I : σ → Prop}
    (hinv : ∀ s e, I s → I (step s e)) (hiff : ∀ s e, I s → (A s e ↔ B s e)) {s : σ} (h0 : I s)
    (events : List ε) : Guarded step A s events ↔ Guarded step B s events := by
  induction events generalizing s with
  | nil => exact Iff.rfl
  | cons e es ih =>
    rw [Guarded, Guarded, hiff s e h0, ih (hinv s e h0)]

/-- What a run leaves in a place that each event overwrites or leaves alone: what the last
event to write it wrote, or what was there before. -/
theorem run_last_write {β : Type*} {step : σ → ε → σ} {g : σ → Option β} {writes : ε → Option β}
    (hstep : ∀ s e, g (step s e) = (writes e).or (g s)) (s : σ) (events : List ε) :
    g (run step s events) = (events.filterMap writes).getLast?.or (g s) := by
  induction events generalizing s with
  | nil => rfl
  | cons e es ih =>
    rw [run_cons, ih, hstep, ← Option.or_assoc]
    congr 1
    cases hw : writes e with
    | none => simp [hw]
    | some b => cases hl : (es.filterMap writes).getLast? <;> simp [hw, List.getLast?_cons, hl]

/-- What is observed of each state a run goes through. -/
def trace {β : Type*} (step : σ → ε → σ) (obs : σ → β) : σ → List ε → List β
  | s, [] => [obs s]
  | s, e :: es => obs s :: trace step obs (step s e) es

/-- Two runs over the same events from related states look the same when related states do and
every event takes them to related states. -/
theorem trace_eq_of_related {β : Type*} {step : σ → ε → σ} {obs : σ → β} {R : σ → σ → Prop}
    (hobs : ∀ s t, R s t → obs s = obs t) (hstep : ∀ s t e, R s t → R (step s e) (step t e))
    {s t : σ} (h0 : R s t) (events : List ε) : trace step obs s events = trace step obs t events := by
  induction events generalizing s t with
  | nil => rw [trace, trace, hobs s t h0]
  | cons e es ih => rw [trace, trace, hobs s t h0, ih (hstep s t e h0)]

/-- Runs that look the same look the same at their end. -/
theorem obs_run_of_trace_eq {β : Type*} {step : σ → ε → σ} {obs : σ → β} {s t : σ}
    {events : List ε} (h : trace step obs s events = trace step obs t events) :
    obs (run step s events) = obs (run step t events) := by
  induction events generalizing s t with
  | nil => exact List.head_eq_of_cons_eq h
  | cons e es ih => exact ih (List.tail_eq_of_cons_eq h)

theorem guarded_true (step : σ → ε → σ) (s : σ) (events : List ε) :
    Guarded step (fun _ _ => True) s events := by
  induction events generalizing s with
  | nil => trivial
  | cons e es ih => exact ⟨trivial, ih _⟩

end SickPool.Library.Run
