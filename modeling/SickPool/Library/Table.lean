import Mathlib.Data.List.Nodup
import Mathlib.Algebra.BigOperators.Group.List.Basic
import Mathlib.Algebra.GroupWithZero.Nat

/-!
# Tables of rows

A table is a list of rows. `sumWhere` is a column total over the rows that meet a
condition. The lemmas say how such a total moves when rows are appended, when the
condition changes, and when a key singles out at most one row. A row appended under the next
value of an `AUTO_INCREMENT` counter keeps the key column without duplicates and below the
counter.
-/
namespace SickPool.Library.Table

variable {α κ : Type*}

/-- `SELECT SUM(f) WHERE p`. -/
def sumWhere (p : α → Bool) (f : α → Nat) (rows : List α) : Nat :=
  ((rows.filter p).map f).sum

@[simp] theorem sumWhere_nil (p : α → Bool) (f : α → Nat) : sumWhere p f [] = 0 := rfl

theorem sumWhere_cons (p : α → Bool) (f : α → Nat) (a : α) (rows : List α) :
    sumWhere p f (a :: rows) = (if p a then f a else 0) + sumWhere p f rows := by
  cases h : p a <;> simp [sumWhere, h]

theorem sumWhere_append (p : α → Bool) (f : α → Nat) (as bs : List α) :
    sumWhere p f (as ++ bs) = sumWhere p f as + sumWhere p f bs := by
  simp [sumWhere]

theorem sumWhere_congr {p q : α → Bool} {f : α → Nat} {rows : List α}
    (h : ∀ a ∈ rows, p a = q a) : sumWhere p f rows = sumWhere q f rows := by
  rw [sumWhere, sumWhere, List.filter_congr h]

theorem sumWhere_eq_zero {p : α → Bool} {f : α → Nat} {rows : List α}
    (h : ∀ a ∈ rows, p a = false) : sumWhere p f rows = 0 := by
  have he : rows.filter p = [] := List.filter_eq_nil_iff.mpr (fun a ha => by simp [h a ha])
  simp [sumWhere, he]

/-- A condition that splits into two disjoint ones splits the total. -/
theorem sumWhere_split {p q r : α → Bool} {f : α → Nat} {rows : List α}
    (h : ∀ a ∈ rows, p a = (q a || r a)) (hd : ∀ a ∈ rows, (q a && r a) = false) :
    sumWhere p f rows = sumWhere q f rows + sumWhere r f rows := by
  induction rows with
  | nil => rfl
  | cons a rows ih =>
    have ha := h a (by simp)
    have hda := hd a (by simp)
    have hrest := ih (fun b hb => h b (by simp [hb])) (fun b hb => hd b (by simp [hb]))
    rw [sumWhere_cons, sumWhere_cons, sumWhere_cons, hrest, ha]
    cases hq : q a <;> cases hr : r a <;> simp_all <;> omega

/-- When at most one row has a given key, a total over that key is the value of
the first row found. -/
theorem sumWhere_key [DecidableEq κ] (key : α → κ) (f : α → Nat) (k : κ) {rows : List α}
    (hn : (rows.map key).Nodup) :
    sumWhere (fun a => decide (key a = k)) f rows =
      (rows.find? (fun a => decide (key a = k))).elim 0 f := by
  induction rows with
  | nil => rfl
  | cons a rows ih =>
    rw [List.map_cons, List.nodup_cons] at hn
    by_cases hk : key a = k
    · have hz : sumWhere (fun b => decide (key b = k)) f rows = 0 := by
        apply sumWhere_eq_zero
        intro b hb
        have hne : key b ≠ k := fun he => hn.1 (List.mem_map.mpr ⟨b, hb, he.trans hk.symm⟩)
        simp [hne]
      rw [sumWhere_cons, hz]
      simp [hk]
    · rw [sumWhere_cons, ih hn.2]
      simp [hk]

/-- Two rows of a table whose key column has no duplicates are the same row when
their keys agree. -/
theorem eq_of_key {key : α → κ} {rows : List α} (hn : (rows.map key).Nodup) {a b : α}
    (ha : a ∈ rows) (hb : b ∈ rows) (h : key a = key b) : a = b :=
  List.inj_on_of_nodup_map hn ha hb h

theorem nodup_append_row {key : α → κ} {rows : List α} {row : α} (hn : (rows.map key).Nodup)
    (hnew : ∀ r ∈ rows, key r ≠ key row) : ((rows ++ [row]).map key).Nodup := by
  rw [← List.concat_eq_append, List.map_concat]
  refine hn.concat ?_
  intro hmem
  obtain ⟨r, hr, he⟩ := List.mem_map.mp hmem
  exact hnew r hr he

theorem lt_next_append_row {key : α → Nat} {rows : List α} {row : α} {next : Nat}
    (hfresh : ∀ r ∈ rows, key r < next) (hrow : key row = next) :
    ∀ r ∈ rows ++ [row], key r < next + 1 := by
  intro r hr
  rcases List.mem_append.mp hr with hr | hr
  · exact Nat.lt_succ_of_lt (hfresh r hr)
  · rw [List.mem_singleton.mp hr, hrow]
    exact Nat.lt_succ_self next

/-- `INSERT` under the next value of the counter. -/
theorem nodup_append_next {key : α → Nat} {rows : List α} {row : α} {next : Nat}
    (hn : (rows.map key).Nodup) (hfresh : ∀ r ∈ rows, key r < next) (hrow : key row = next) :
    ((rows ++ [row]).map key).Nodup := by
  refine nodup_append_row hn ?_
  intro r hr
  rw [hrow]
  exact Nat.ne_of_lt (hfresh r hr)

end SickPool.Library.Table
