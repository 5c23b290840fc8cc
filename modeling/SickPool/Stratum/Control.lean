import Mathlib.Data.List.Induction
import SickPool.Library.Bytes
import SickPool.Library.Run

/-!
# The control connections

`ControlServer::GetNextCommand` and the loop of `HandleControlCommands`. A connection that sends
nothing is not closed, so that its descriptor is lost. When no descriptor is left `accept` fails,
the connection stays readable, and neither a command nor the poll for a block comes through.
-/
namespace SickPool.Stratum.Control

open SickPool.Library SickPool.Library.Bytes SickPool.Library.Run

/-- `ControlCommands`, as the numbers that are cast to it. -/
def NONE : Int := 0

def BLOCK_NOTIFY : Int := 1

/-- A `char`. -/
def toChar (c : UInt8) : Int := if c.toNat < 128 then c.toNat else (c.toNat : Int) - 256

structure ControlServer where
  /-- The connections that wait, each with what it sends before it is closed. -/
  waiting : List Bytes
  /-- The descriptors of connections that were not closed. -/
  lost : ℕ

/-- `GetNextCommand`, with the buffer it reads into. `limit` descriptors are left for the control
connections; without one `accept` fails and `recv` is called on no socket. -/
def getNextCommand (limit : ℕ) (server : ControlServer) (buf : Bytes) :
    Int × ControlServer × Bytes :=
  match server.waiting with
  | [] => (BLOCK_NOTIFY, server, buf)
  | sent :: rest =>
    if server.lost < limit then
      match sent with
      | [] => (NONE, ⟨rest, server.lost + 1⟩, buf)
      | c :: _ =>
        (toChar c - toChar 48, ⟨rest, server.lost⟩, writeAt buf 0 (sent.take buf.length))
    else (NONE, server, buf)

/-- What `HandleControlCommand` does with a command. -/
inductive Handling where
  | handleBlockNotify
  | nothing
  | warnUnknown (cmd : Int)
  deriving DecidableEq

def handleControlCommand (cmd : Int) : Handling :=
  if cmd = BLOCK_NOTIFY then .handleBlockNotify
  else if cmd = NONE then .nothing
  else .warnUnknown cmd

/-- The thread of `HandleControlCommands`, with what it did so far. -/
structure ControlThread where
  server : ControlServer
  buff : Bytes
  handled : List Handling

inductive ControlEvent where
  | connect (sent : Bytes)
  | turn

namespace ControlThread

def start : ControlThread := ⟨⟨[], 0⟩, List.replicate 256 0, []⟩

/-- A turn of the loop. -/
def turn (limit : ℕ) (s : ControlThread) : ControlThread :=
  let (cmd, server, buff) := getNextCommand limit s.server s.buff
  ⟨server, buff, s.handled ++ [handleControlCommand cmd]⟩

def step (limit : ℕ) (s : ControlThread) : ControlEvent → ControlThread
  | .connect sent => { s with server := { s.server with waiting := s.server.waiting ++ [sent] } }
  | .turn => s.turn limit

/-! ## Runs -/

/-- What the connections of a run send, in the order in which they come. -/
def arrivals (events : List ControlEvent) : List Bytes :=
  events.filterMap fun
    | .connect sent => some sent
    | .turn => none

/-- The connections that send nothing. -/
def silent (connections : List Bytes) : ℕ := connections.countP (· = [])

def turns (events : List ControlEvent) : ℕ :=
  events.countP fun
    | .connect _ => false
    | .turn => true

/-- Of the connections so far the first `count` were taken up, each with a descriptor left. -/
structure TakenUp (limit : ℕ) (connections : List Bytes) (count : ℕ) (s : ControlThread) : Prop where
  le : count ≤ connections.length
  waiting : s.server.waiting = connections.drop count
  lost : s.server.lost = silent (connections.take count)
  below : ∀ k < count, silent (connections.take k) < limit

/-- No descriptor is left, and a connection waits. -/
def Stuck (limit : ℕ) (s : ControlThread) : Prop := limit ≤ s.server.lost ∧ s.server.waiting ≠ []

/-- A turn takes no connection up. -/
def Resting (limit : ℕ) (s : ControlThread) : Prop := s.server.waiting = [] ∨ Stuck limit s

variable {limit count : ℕ} {connections : List Bytes} {s : ControlThread}

theorem takenUp_start (limit : ℕ) : TakenUp limit [] 0 start :=
  ⟨Nat.le_refl 0, rfl, rfl, fun _ hk => absurd hk (Nat.not_lt_zero _)⟩

theorem TakenUp.connect (h : TakenUp limit connections count s) (sent : Bytes) :
    TakenUp limit (connections ++ [sent]) count (s.step limit (.connect sent)) where
  le := h.le.trans (by rw [List.length_append]; omega)
  waiting := by
    rw [List.drop_append_of_le_length h.le, ← h.waiting]
    rfl
  lost := by
    rw [List.take_append_of_le_length h.le]
    exact h.lost
  below k hk := by
    have hle := h.le
    rw [List.take_append_of_le_length (by omega)]
    exact h.below k hk

/-- A turn takes the next connection up, unless none waits or no descriptor is left. -/
theorem TakenUp.turn (h : TakenUp limit connections count s) :
    Resting limit s ∧ TakenUp limit connections count (s.turn limit) ∨
      TakenUp limit connections (count + 1) (s.turn limit) := by
  obtain ⟨⟨waiting, lost⟩, buff, handled⟩ := s
  have hlost := h.lost
  dsimp only at hlost
  rcases hwait : waiting with _ | ⟨sent, rest⟩
  · subst hwait
    exact .inl ⟨.inl rfl, h.le, h.waiting, h.lost, h.below⟩
  · subst hwait
    by_cases hl : lost < limit
    · right
      have hdrop := h.waiting
      have hlt : count < connections.length := by
        by_contra hno
        rw [List.drop_eq_nil_of_le (by omega)] at hdrop
        exact List.cons_ne_nil _ _ hdrop
      rw [List.drop_eq_getElem_cons hlt] at hdrop
      obtain ⟨hsent, hrest⟩ := List.cons.inj hdrop
      have htake : silent (connections.take (count + 1)) =
          silent (connections.take count) + if sent = [] then 1 else 0 := by
        rw [List.take_succ_eq_append_getElem hlt, silent, List.countP_append, ← hsent,
          List.countP_singleton]
        simp [silent]
      have hbelow : ∀ k < count + 1, silent (connections.take k) < limit := by
        intro k hk
        rcases Nat.lt_succ_iff_lt_or_eq.mp hk with hk | rfl
        · exact h.below k hk
        · rwa [← hlost]
      rcases sent with _ | ⟨c, sent⟩
      · simp only [ControlThread.turn, getNextCommand, if_pos hl]
        exact ⟨hlt, hrest, by rw [htake, hlost]; rfl, hbelow⟩
      · simp only [ControlThread.turn, getNextCommand, if_pos hl]
        exact ⟨hlt, hrest, by rw [htake, hlost]; rfl, hbelow⟩
    · left
      refine ⟨.inr ⟨Nat.not_lt.mp hl, List.cons_ne_nil _ _⟩, ?_⟩
      simp only [ControlThread.turn, getNextCommand, if_neg hl]
      exact ⟨h.le, h.waiting, h.lost, h.below⟩

theorem Resting.turn_server (h : Resting limit s) : (s.turn limit).server = s.server := by
  obtain ⟨⟨waiting, lost⟩, buff, handled⟩ := s
  rcases h with hidle | ⟨hlost, hwait⟩
  · obtain rfl : waiting = [] := hidle
    rfl
  · obtain ⟨sent, rest, rfl⟩ := List.exists_cons_of_ne_nil hwait
    simp only [ControlThread.turn, getNextCommand, if_neg (Nat.not_lt.mpr hlost)]

theorem Resting.turn (h : Resting limit s) : Resting limit (s.turn limit) := by
  rw [Resting, Stuck, h.turn_server]
  exact h

theorem Stuck.turn_handled (h : Stuck limit s) :
    (s.turn limit).handled = s.handled ++ [.nothing] := by
  obtain ⟨⟨waiting, lost⟩, buff, handled⟩ := s
  obtain ⟨hlost, hwait⟩ := h
  obtain ⟨sent, rest, rfl⟩ := List.exists_cons_of_ne_nil hwait
  simp only [ControlThread.turn, getNextCommand, if_neg (Nat.not_lt.mpr hlost)]
  rfl

/-- A stuck thread stays so whatever connects. -/
theorem Stuck.run_handled (h : Stuck limit s) (later : List ControlEvent) :
    (run (step limit) s later).handled = s.handled ++ List.replicate (turns later) .nothing := by
  induction later generalizing s with
  | nil => exact (List.append_nil _).symm
  | cons e later ih =>
    rw [run_cons]
    cases e with
    | connect sent => exact ih ⟨h.1, List.append_ne_nil_of_left_ne_nil h.2 _⟩
    | turn =>
      have hnext : Stuck limit (s.turn limit) := by rwa [Stuck, Resting.turn_server (.inr h)]
      have hcount : turns (.turn :: later) = turns later + 1 := List.countP_cons_of_pos rfl
      rw [step, ih hnext, h.turn_handled, hcount, List.replicate_succ, List.append_assoc,
        List.singleton_append]

theorem run_takenUp (limit : ℕ) (events : List ControlEvent) :
    ∃ count, TakenUp limit (arrivals events) count (run (step limit) start events) := by
  induction events using List.reverseRecOn with
  | nil => exact ⟨0, takenUp_start limit⟩
  | append_singleton events e ih =>
    obtain ⟨count, h⟩ := ih
    rw [run_append, run_cons, run_nil, arrivals, List.filterMap_append]
    cases e with
    | connect sent => exact ⟨count, h.connect sent⟩
    | turn =>
      change ∃ count, TakenUp limit (arrivals events ++ []) count _
      rw [List.append_nil]
      exact h.turn.elim (fun hrest => ⟨count, hrest.2⟩) fun hnext => ⟨count + 1, hnext⟩

/-- With every turn a connection is taken up, or there is none to be taken up. -/
theorem TakenUp.turns (h : TakenUp limit connections count s) (n : ℕ) :
    ∃ count', TakenUp limit connections count' (run (step limit) s (List.replicate n .turn)) ∧
      (Resting limit (run (step limit) s (List.replicate n .turn)) ∨ count + n ≤ count') := by
  induction n with
  | zero => exact ⟨count, h, .inr (Nat.le_refl count)⟩
  | succ n ih =>
    rw [List.replicate_succ', run_append, run_cons, run_nil, step]
    obtain ⟨count', hup, hcount⟩ := ih
    rcases hup.turn with ⟨hrest, hup'⟩ | hup'
    · exact ⟨count', hup', .inl hrest.turn⟩
    · exact ⟨count' + 1, hup', hcount.imp Resting.turn fun hle => by omega⟩

/-- A run with a turn for each of its connections behind it. -/
def settled (limit : ℕ) (events : List ControlEvent) : ControlThread :=
  run (step limit) start (events ++ List.replicate (arrivals events).length .turn)

/-- The thread comes to handle neither a command nor the poll for a block, whatever connects later,
exactly if a connection came behind `limit` others that sent nothing. -/
theorem handles_none_iff (limit : ℕ) (events : List ControlEvent) :
    (∀ later, (run (step limit) (settled limit events) later).handled =
      (settled limit events).handled ++ List.replicate (turns later) .nothing) ↔
      ∃ k < (arrivals events).length, limit ≤ silent ((arrivals events).take k) := by
  obtain ⟨count, hup⟩ := run_takenUp limit events
  obtain ⟨count', hup', hrest⟩ := hup.turns (arrivals events).length
  rw [← run_append] at hup' hrest
  change TakenUp limit (arrivals events) count' (settled limit events) at hup'
  change Resting limit (settled limit events) ∨ _ at hrest
  have hle := hup'.le
  have hcases : Resting limit (settled limit events) := by
    rcases hrest with hrest | hall
    · exact hrest
    · exact .inl (hup'.waiting.trans (List.drop_eq_nil_of_le (by omega)))
  rcases hcases with hidle | hstuck
  · -- the next turn polls
    have hall : (arrivals events).length ≤ count' :=
      List.drop_eq_nil_iff.mp (hup'.waiting.symm.trans hidle)
    refine iff_of_false (fun h => ?_) ?_
    · have hpoll : ((settled limit events).turn limit).handled =
          (settled limit events).handled ++ [.handleBlockNotify] := by
        rw [ControlThread.turn, getNextCommand, hidle]
        rfl
      have hnone := h [.turn]
      change ((settled limit events).turn limit).handled = _ at hnone
      rw [hpoll] at hnone
      exact absurd (List.append_cancel_left hnone) (by decide)
    · rintro ⟨k, hk, hlost⟩
      exact absurd (hup'.below k (by omega)) (by omega)
  · refine iff_of_true hstuck.run_handled ⟨count', ?_, ?_⟩
    · by_contra hno
      exact hstuck.2 (hup'.waiting.trans (List.drop_eq_nil_of_le (by omega)))
    · rw [← hup'.lost]
      exact hstuck.1

end ControlThread

end SickPool.Stratum.Control
