import SickPool.Library.Run
import SickPool.Round.RoundManager
import Mathlib.Data.List.Perm.Basic

/-!
# Pending shares under concurrent pushes

`PushPendingShares` reads the pending shares, appends them to the store and clears the
vector, under `efforts_map_mutex`; `AddRoundSharePPLNS` puts a share into the vector without
the mutex. The three accesses are atomic steps here, taken by any threads in any order that
the mutex allows. A share that comes between the read and the clear is not in the store and
not in the vector any more.
-/
namespace SickPool.Round

open SickPool.Library SickPool.Library.Run SickPool.Persistence SickPool.Stats

/-- An atomic step. A push is by the statistics thread or by a thread in `CloseRound`. -/
inductive PushEvent where
  | addRoundSharePPLNS (minerId : Nat) (effort : Double)
  | read (thread : Nat)
  | clear (thread : Nat)

/-- The thread between the read and the clear of a push, with the number of shares read. -/
structure Pusher where
  thread : Nat
  read : Nat
  deriving DecidableEq

/-- The round manager, the shares appended to the store so far, the thread that is pushing
and all shares given to `AddRoundSharePPLNS`. -/
structure PushState where
  manager : RoundManager
  stored : List RoundShare
  pusher : Option Pusher
  given : List RoundShare
  deriving DecidableEq

namespace PushState

def start (effortsMap : List (Nat × Double)) (round : Stats.Round) : PushState :=
  ⟨⟨[], effortsMap, round⟩, [], none, []⟩

/-- The number of pending shares that are in the store already. -/
def readCount (s : PushState) : Nat := s.pusher.elim 0 (·.read)

/-- A push that finds the mutex taken waits, so its step does nothing yet. -/
def step (s : PushState) : PushEvent → PushState
  | .addRoundSharePPLNS minerId effort =>
    { s with
      manager := s.manager.addRoundSharePPLNS minerId effort
      given := s.given ++ [⟨minerId, effort⟩] }
  | .read thread => match s.pusher with
    | none =>
      { s with
        stored := s.stored ++ s.manager.pendingShares
        pusher := some ⟨thread, s.manager.pendingShares.length⟩ }
    | some _ => s
  | .clear thread => match s.pusher with
    | some pusher => if pusher.thread = thread
        then { s with manager := { s.manager with pendingShares := [] }, pusher := none } else s
    | none => s

/-- Every share given is in the store once, or is pending and not in the store yet. -/
structure Accounted (s : PushState) : Prop where
  read_le : s.readCount ≤ s.manager.pendingShares.length
  shares : (s.stored ++ s.manager.pendingShares.drop s.readCount).Perm s.given

/-- The vector is cleared by a push only while it holds what the push has read. -/
def ClearsWhatItRead (s : PushState) : PushEvent → Prop
  | .clear thread => ∀ pusher, s.pusher = some pusher → pusher.thread = thread →
      s.manager.pendingShares.length ≤ pusher.read
  | _ => True

theorem accounted_start (effortsMap : List (Nat × Double)) (round : Stats.Round) :
    Accounted (start effortsMap round) :=
  ⟨Nat.le_refl 0, List.Perm.refl []⟩

/-- A share is appended to the pending ones behind those that a push has read. -/
theorem accounted_add {s : PushState} (h : Accounted s) (minerId : Nat) (effort : Double) :
    Accounted (s.step (.addRoundSharePPLNS minerId effort)) := by
  have hle := h.read_le
  refine ⟨?_, ?_⟩
  · change s.readCount ≤ (s.manager.pendingShares ++ [Stats.Share.mk minerId effort]).length
    rw [List.length_append]
    omega
  · change (s.stored ++
      (s.manager.pendingShares ++ [Stats.Share.mk minerId effort]).drop s.readCount).Perm _
    rw [List.drop_append_of_le_length hle, ← List.append_assoc]
    exact h.shares.append_right _

theorem accounted_read {s : PushState} (h : Accounted s) (thread : Nat) :
    Accounted (s.step (.read thread)) := by
  cases hp : s.pusher with
  | some pusher =>
    simp only [step, hp]
    exact h
  | none =>
    have hr : s.readCount = 0 := by simp [readCount, hp]
    have hshares := h.shares
    rw [hr, List.drop_zero] at hshares
    simp only [step, hp]
    refine ⟨Nat.le_refl _, ?_⟩
    simpa [readCount] using hshares

theorem accounted_clear_iff {s : PushState} (h : Accounted s) (thread : Nat) :
    Accounted (s.step (.clear thread)) ↔ ClearsWhatItRead s (.clear thread) := by
  cases hp : s.pusher with
  | none =>
    simp only [step, hp]
    exact iff_of_true h (fun pusher hs => by rw [hp] at hs; cases hs)
  | some pusher =>
    by_cases ht : pusher.thread = thread
    · have hr : s.readCount = pusher.read := by simp [readCount, hp]
      have hshares := h.shares
      rw [hr] at hshares
      simp only [step, hp, ht, ↓reduceIte]
      constructor
      · -- what is left behind the shares read would be missing from the store
        intro h' pusher' hs _
        obtain rfl : pusher = pusher' := Option.some.inj (hp.symm.trans hs)
        have hlen := (hshares.trans h'.shares.symm).length_eq
        simp only [readCount, Option.elim_none, List.drop_nil, List.append_nil, List.length_append,
          List.length_drop] at hlen
        omega
      · intro hc
        have hle := hc pusher hp ht
        rw [List.drop_of_length_le hle] at hshares
        exact ⟨Nat.le_refl 0, hshares⟩
    · simp only [step, hp, ht, ↓reduceIte]
      refine iff_of_true h (fun pusher' hs ht' => absurd ?_ ht)
      rw [← ht', Option.some.inj (hp.symm.trans hs)]

/-- **When no share is lost on the way to the store.** In every interleaving of share
submissions and pushes, every share given to `AddRoundSharePPLNS` is in the store once or
still pending, in every state, exactly when no push clears a vector that a share has come
into since it read it. -/
theorem shares_accounted_iff (effortsMap : List (Nat × Double)) (round : Stats.Round)
    (events : List PushEvent) :
    Always step Accounted (start effortsMap round) events ↔
      Guarded step ClearsWhatItRead (start effortsMap round) events := by
  refine always_iff_guarded ?_ (accounted_start effortsMap round) events
  intro s e h
  cases e with
  | addRoundSharePPLNS minerId effort => exact iff_of_true (accounted_add h minerId effort) trivial
  | read thread => exact iff_of_true (accounted_read h thread) trivial
  | clear thread => exact accounted_clear_iff h thread

/-- A push without a step between its read and its clear is `PushPendingShares` as one
step: the store is given the shares that leave the vector. -/
theorem push_uninterrupted {R : Type} (pl : PersistenceLayer R) (r : R) {s : PushState}
    (h : s.pusher = none) (thread : Nat) :
    run step s [.read thread, .clear thread] =
      { s with
        manager := (s.manager.pushPendingShares pl r).1
        stored := s.stored ++ s.manager.pendingShares } := by
  simp only [run_cons, run_nil, step, h, ↓reduceIte, RoundManager.pushPendingShares]

/-- A share that comes between the read and the clear of a push is lost. -/
theorem share_lost :
    run step (start [] ⟨0, 0, 0⟩) [.read 0, .addRoundSharePPLNS 1 5, .clear 0] =
        ⟨⟨[], [], ⟨0, 0, 0⟩⟩, [], none, [⟨1, 5⟩]⟩ ∧
      ¬ Accounted (run step (start [] ⟨0, 0, 0⟩)
        [.read 0, .addRoundSharePPLNS 1 5, .clear 0]) := by
  refine ⟨by decide +kernel, fun h => ?_⟩
  exact absurd h.shares.length_eq (by decide)

end PushState
end SickPool.Round
