import Mathlib.Algebra.Order.Group.Nat
import Mathlib.Data.List.Basic
import SickPool.Library.Bytes

/-!
# When the statistics are updated

The loop of `StatsManager::Start`. The thread sleeps until the earlier of two times, and an update
that is due is followed by the next one a whole interval later, so that no time is left out
however late the thread wakes.
-/
namespace SickPool.Stats.UpdateSchedule

/-- `hashrate_interval_seconds` and `effort_interval_seconds`. -/
structure Intervals where
  hashrate : ℕ
  effort : ℕ

structure Times where
  nextIntervalUpdate : ℕ
  nextEffortUpdate : ℕ

/-- A call of the loop, with the second it is made for. -/
inductive Update where
  | updateIntervalStats (updateTimeMs : ℕ)
  | pushPendingShares (time : ℕ)
  deriving DecidableEq

variable (conf : Intervals)

/-- The times before the loop. -/
def start (now : ℕ) : Times where
  nextIntervalUpdate := now - now % conf.hashrate + conf.hashrate
  nextEffortUpdate := now - now % conf.effort + conf.effort

/-- A turn of the loop. -/
def turn (times : Times) : Times × List Update :=
  let nextUpdate := min times.nextIntervalUpdate times.nextEffortUpdate
  let updateTimeMs := nextUpdate * 1000
  let (times, done) :=
    if nextUpdate = times.nextIntervalUpdate then
      ({ times with nextIntervalUpdate := times.nextIntervalUpdate + conf.hashrate },
        [Update.updateIntervalStats updateTimeMs])
    else (times, [])
  if nextUpdate = times.nextEffortUpdate then
    ({ times with nextEffortUpdate := times.nextEffortUpdate + conf.effort },
      done ++ [.pushPendingShares nextUpdate])
  else (times, done)

/-- The loop after some turns, with all that was done. -/
def run (now : ℕ) : ℕ → Times × List Update
  | 0 => (start conf now, [])
  | n + 1 =>
    let (times, done) := run now n
    let (times, more) := turn conf times
    (times, done ++ more)

/-! ## Timers -/

/-- `next` is the first multiple of `interval` from `due` on. -/
structure FirstFrom (interval due next : ℕ) : Prop where
  dvd : interval ∣ next
  le : due ≤ next
  least : ∀ m, interval ∣ m → due ≤ m → next ≤ m

theorem firstFrom_start {interval : ℕ} (hpos : 0 < interval) (now : ℕ) :
    FirstFrom interval (now + 1) (now - now % interval + interval) where
  dvd := Nat.dvd_add (Nat.dvd_sub_mod now) (Nat.dvd_refl interval)
  le := by
    have := Nat.mod_lt now hpos
    have := Nat.mod_le now interval
    omega
  least := by
    rintro m ⟨k, rfl⟩ hm
    have hdiv := Nat.div_add_mod now interval
    have hlt : now / interval < k := (Nat.div_lt_iff_lt_mul hpos).mpr (by rw [Nat.mul_comm]; omega)
    have := Nat.mul_le_mul_left interval (show now / interval + 1 ≤ k from hlt)
    rw [Nat.mul_add] at this
    omega

theorem FirstFrom.later {interval due due' next : ℕ} (h : FirstFrom interval due next)
    (hdue : due ≤ due') (hle : due' ≤ next) : FirstFrom interval due' next :=
  ⟨h.dvd, hle, fun m hm hm' => h.least m hm (hdue.trans hm')⟩

/-- Before the next time of a timer there is no multiple of its interval. -/
theorem FirstFrom.not_dvd {interval due next t : ℕ} (h : FirstFrom interval due next)
    (ht : due ≤ t) (ht' : t < next) : ¬interval ∣ t := fun hdvd =>
  Nat.not_lt.mpr (h.least t hdvd ht) ht'

theorem FirstFrom.dvd_iff {interval due next : ℕ} (h : FirstFrom interval due next) :
    interval ∣ due ↔ due = next := by
  constructor
  · intro hdvd
    exact Nat.le_antisymm h.le (h.least due hdvd (Nat.le_refl due))
  · rintro rfl
    exact h.dvd

/-- A timer that is due is set a whole interval on, the other one is left as it is. -/
def after (interval due next : ℕ) : ℕ := if due = next then next + interval else next

theorem firstFrom_after {interval due next : ℕ} (hpos : 0 < interval)
    (h : FirstFrom interval due next) : FirstFrom interval (due + 1) (after interval due next) := by
  have hle := h.le
  rw [after]
  split
  · next heq =>
    refine ⟨Nat.dvd_add h.dvd (Nat.dvd_refl interval), by omega, fun m hm hdue => ?_⟩
    have := Nat.le_of_dvd (by omega) (Nat.dvd_sub hm h.dvd)
    omega
  · exact h.later (by omega) (by omega)

/-! ## The calendar -/

/-- What is due at a second. -/
def dueAt (t : ℕ) : List Update :=
  (if conf.hashrate ∣ t then [.updateIntervalStats (t * 1000)] else []) ++
    (if conf.effort ∣ t then [.pushPendingShares t] else [])

/-- What is due from one second to before another, in order. -/
def calendar (first last : ℕ) : List Update :=
  (List.range' first (last - first)).flatMap (dueAt conf)

variable {conf}

theorem calendar_append {a b c : ℕ} (hab : a ≤ b) (hbc : b ≤ c) :
    calendar conf a b ++ calendar conf b c = calendar conf a c := by
  rw [calendar, calendar, calendar, ← List.flatMap_append]
  congr 1
  have happend := List.range'_append_1 (s := a) (m := b - a) (n := c - b)
  rw [show a + (b - a) = b by omega, show b - a + (c - b) = c - a by omega] at happend
  exact happend

theorem calendar_eq_nil {a b : ℕ}
    (h : ∀ t, a ≤ t → t < b → ¬conf.hashrate ∣ t ∧ ¬conf.effort ∣ t) : calendar conf a b = [] := by
  rw [calendar, List.flatMap_eq_nil_iff]
  intro t ht
  obtain ⟨hge, hlt⟩ := List.mem_range'_1.mp ht
  obtain ⟨hno, hno'⟩ := h t hge (by omega)
  rw [dueAt, if_neg hno, if_neg hno', List.append_nil]

theorem calendar_succ (t : ℕ) : calendar conf t (t + 1) = dueAt conf t := by
  rw [calendar, Nat.add_sub_cancel_left]
  simp

/-! ## Runs -/

def Times.due (times : Times) : ℕ := min times.nextIntervalUpdate times.nextEffortUpdate

/-- Both timers are at their first times from the time that is due next. -/
structure OnTime (conf : Intervals) (times : Times) : Prop where
  interval : FirstFrom conf.hashrate times.due times.nextIntervalUpdate
  effort : FirstFrom conf.effort times.due times.nextEffortUpdate

/-- The times after a turn. -/
def Times.afterTurn (conf : Intervals) (times : Times) : Times where
  nextIntervalUpdate := after conf.hashrate times.due times.nextIntervalUpdate
  nextEffortUpdate := after conf.effort times.due times.nextEffortUpdate

theorem turn_eq (times : Times) : turn conf times =
    (times.afterTurn conf,
      (if times.due = times.nextIntervalUpdate then
          [.updateIntervalStats (times.due * 1000)] else []) ++
        (if times.due = times.nextEffortUpdate then [.pushPendingShares times.due] else [])) := by
  have hdue : min times.nextIntervalUpdate times.nextEffortUpdate = times.due := rfl
  by_cases hi : times.due = times.nextIntervalUpdate
  · by_cases he : times.due = times.nextEffortUpdate
    · simp only [turn, Times.afterTurn, after, hdue, if_pos hi, if_pos he]
    · simp only [turn, Times.afterTurn, after, hdue, if_pos hi, if_neg he, List.append_nil]
  · by_cases he : times.due = times.nextEffortUpdate
    · simp only [turn, Times.afterTurn, after, hdue, if_neg hi, if_pos he]
    · simp only [turn, Times.afterTurn, after, hdue, if_neg hi, if_neg he, List.append_nil]

theorem OnTime.of_firstFrom {times : Times} {t : ℕ}
    (hi : FirstFrom conf.hashrate t times.nextIntervalUpdate)
    (he : FirstFrom conf.effort t times.nextEffortUpdate) : OnTime conf times := by
  have hle : t ≤ times.due := Nat.le_min.mpr ⟨hi.le, he.le⟩
  exact ⟨hi.later hle (Nat.min_le_left _ _), he.later hle (Nat.min_le_right _ _)⟩

/-- Nothing is due before the earlier of two times. -/
theorem calendar_before (times : Times) {t : ℕ}
    (hi : FirstFrom conf.hashrate t times.nextIntervalUpdate)
    (he : FirstFrom conf.effort t times.nextEffortUpdate) : calendar conf t times.due = [] :=
  calendar_eq_nil fun _ hge hlt =>
    ⟨hi.not_dvd hge (hlt.trans_le (Nat.min_le_left _ _)),
      he.not_dvd hge (hlt.trans_le (Nat.min_le_right _ _))⟩

/-- A turn does what is due, and everything due before the next turn. -/
theorem turn_spec {times : Times} (hh : 0 < conf.hashrate) (he : 0 < conf.effort)
    (h : OnTime conf times) : OnTime conf (turn conf times).1 ∧
      times.due < (turn conf times).1.due ∧
      (turn conf times).2 = calendar conf times.due (turn conf times).1.due := by
  rw [turn_eq]
  have hinterval := firstFrom_after hh h.interval
  have heffort := firstFrom_after he h.effort
  have hlt : times.due < (times.afterTurn conf).due := Nat.lt_min.mpr ⟨hinterval.le, heffort.le⟩
  refine ⟨.of_firstFrom hinterval heffort, hlt, ?_⟩
  rw [← calendar_append (Nat.le_succ times.due) hlt, calendar_succ,
    calendar_before (times.afterTurn conf) hinterval heffort, List.append_nil, dueAt]
  simp only [h.interval.dvd_iff, h.effort.dvd_iff]

/-- After any number of turns exactly what the calendar names from the start to the next time
was done, each update once and in order, and every turn brings that time on. -/
theorem run_eq_calendar (hh : 0 < conf.hashrate) (he : 0 < conf.effort) (now n : ℕ) :
    (run conf now n).2 = calendar conf (now + 1) (run conf now n).1.due ∧
      now + n < (run conf now n).1.due := by
  have hall : OnTime conf (run conf now n).1 ∧
      (run conf now n).2 = calendar conf (now + 1) (run conf now n).1.due ∧
      now + n < (run conf now n).1.due := by
    have hinterval := firstFrom_start hh now
    have heffort := firstFrom_start he now
    induction n with
    | zero =>
      exact ⟨.of_firstFrom hinterval heffort,
        (calendar_before (start conf now) hinterval heffort).symm,
        Nat.lt_min.mpr ⟨hinterval.le, heffort.le⟩⟩
    | succ n ih =>
      obtain ⟨hon, hdone, hdue⟩ := ih
      obtain ⟨hon', hlt, hmore⟩ := turn_spec hh he hon
      refine ⟨hon', ?_, by change _ < (turn conf _).1.due; omega⟩
      change (run conf now n).2 ++ (turn conf (run conf now n).1).2 = _
      rw [hmore, hdone]
      exact calendar_append (by omega) (Nat.le_of_lt hlt)
  exact hall.2

theorem run_eq_calendar_minutes :
    (run ⟨60, 90⟩ 100 3).2 = calendar ⟨60, 90⟩ 101 (run ⟨60, 90⟩ 100 3).1.due ∧
      100 + 3 < (run ⟨60, 90⟩ 100 3).1.due :=
  run_eq_calendar (by decide) (by decide) 100 3

example : (run ⟨60, 90⟩ 100 3).2 = [.updateIntervalStats 120000, .updateIntervalStats 180000,
    .pushPendingShares 180, .updateIntervalStats 240000] := by decide

end SickPool.Stats.UpdateSchedule
