import Mathlib.Data.List.Basic

/-!
# Lines of a stream

A stream cut at a separator: the terminated lines, each without its separator, and the
unterminated rest behind the last one. Reading a stream in pieces, with the rest put before
the next piece, gives the same lines as reading it whole. A handler that takes the lines one
by one is handed no more of them once a call of it does not come back.
-/
namespace SickPool.Library.Lines

variable {α : Type*} [DecidableEq α] {sep : α} {xs : List α}

def terminated (sep : α) (xs : List α) : List (List α) := (xs.splitOn sep).dropLast

def unterminated (sep : α) (xs : List α) : List α := (xs.splitOn sep).getLastD []

theorem splitOn_eq (sep : α) (xs : List α) :
    xs.splitOn sep = terminated sep xs ++ [unterminated sep xs] := by
  have hne := List.splitOn_ne_nil sep xs
  rw [terminated, unterminated, List.getLastD_eq_getLast?, List.getLast?_eq_some_getLast hne,
    Option.getD_some, List.dropLast_append_getLast hne]

theorem terminated_of_notMem (h : sep ∉ xs) : terminated sep xs = [] := by
  simp [terminated, List.splitOn_eq_singleton h]

theorem unterminated_of_notMem (h : sep ∉ xs) : unterminated sep xs = xs := by
  simp [unterminated, List.splitOn_eq_singleton h]

theorem splitOn_cut (xs ys : List α) :
    terminated sep (xs ++ sep :: ys) ++ [unterminated sep (xs ++ sep :: ys)] =
      (terminated sep xs ++ unterminated sep xs :: terminated sep ys) ++ [unterminated sep ys] := by
  rw [← splitOn_eq, List.splitOn_append_cons_self, splitOn_eq, splitOn_eq]
  simp

theorem terminated_cut (xs ys : List α) :
    terminated sep (xs ++ sep :: ys) =
      terminated sep xs ++ unterminated sep xs :: terminated sep ys :=
  (List.append_inj' (splitOn_cut xs ys) rfl).1

theorem unterminated_cut (xs ys : List α) :
    unterminated sep (xs ++ sep :: ys) = unterminated sep ys :=
  List.singleton_inj.mp (List.append_inj' (splitOn_cut xs ys) rfl).2

omit [DecidableEq α] in
/-- A list is cut at its last separator. -/
theorem eq_cut_last (h : sep ∈ xs) : ∃ as bs, xs = as ++ sep :: bs ∧ sep ∉ bs := by
  obtain ⟨as, bs, he, hn⟩ := List.eq_append_cons_of_mem (List.mem_reverse.mpr h)
  refine ⟨bs.reverse, as.reverse, ?_, by simpa using hn⟩
  rw [← List.reverse_reverse xs, he]
  simp

omit [DecidableEq α] in
/-- A list is cut at the first element without a property. -/
theorem exists_first {p : α → Prop} {l : List α} (h : ¬ ∀ x ∈ l, p x) :
    ∃ pre x post, l = pre ++ x :: post ∧ (∀ y ∈ pre, p y) ∧ ¬ p x := by
  induction l with
  | nil => exact absurd (by simp) h
  | cons a l ih =>
    by_cases ha : p a
    · obtain ⟨pre, x, post, rfl, hpre, hx⟩ := ih (fun hl => h (by simpa [ha] using hl))
      exact ⟨a :: pre, x, post, rfl, by simpa [ha] using hpre, hx⟩
    · exact ⟨[], a, l, rfl, by simp, ha⟩

/-- Reading on from the rest: the lines of a stream do not depend on where it is cut. -/
theorem append_pieces (xs ys : List α) :
    terminated sep (xs ++ ys) = terminated sep xs ++ terminated sep (unterminated sep xs ++ ys) ∧
      unterminated sep (xs ++ ys) = unterminated sep (unterminated sep xs ++ ys) := by
  by_cases h : sep ∈ xs
  · obtain ⟨as, bs, rfl, hn⟩ := eq_cut_last h
    rw [terminated_cut, unterminated_cut, unterminated_of_notMem hn, terminated_of_notMem hn]
    have hassoc : (as ++ sep :: bs) ++ ys = as ++ sep :: (bs ++ ys) := by simp
    rw [hassoc, terminated_cut, unterminated_cut]
    simp
  · rw [terminated_of_notMem h, unterminated_of_notMem h]
    simp

theorem mem_of_mem_unterminated {a : α} (h : a ∈ unterminated sep xs) : a ∈ xs := by
  by_cases hs : sep ∈ xs
  · obtain ⟨as, bs, rfl, hn⟩ := eq_cut_last hs
    rw [unterminated_cut, unterminated_of_notMem hn] at h
    simp [h]
  · rwa [unterminated_of_notMem hs] at h

theorem notMem_unterminated (sep : α) (xs : List α) : sep ∉ unterminated sep xs := by
  by_cases hs : sep ∈ xs
  · obtain ⟨as, bs, rfl, hn⟩ := eq_cut_last hs
    rwa [unterminated_cut, unterminated_of_notMem hn]
  · rwa [unterminated_of_notMem hs]

/-! ## Handing lines over -/

variable {σ β : Type*} {handle : σ → β → Option σ}

/-- The lines a handler is given, up to the first call that does not come back. -/
def handed (handle : σ → β → Option σ) : σ → List β → List β
  | _, [] => []
  | s, x :: xs => x :: match handle s x with
    | none => []
    | some s' => handed handle s' xs

@[simp] theorem handed_nil (handle : σ → β → Option σ) (s : σ) : handed handle s [] = [] := rfl

/-- When the calls come back, every line is handed over, and those behind find the state they
leave. -/
theorem handed_append {s s' : σ} {xs : List β} (h : xs.foldlM handle s = some s') (ys : List β) :
    handed handle s (xs ++ ys) = xs ++ handed handle s' ys := by
  induction xs generalizing s with
  | nil =>
    obtain rfl : s = s' := by simpa using h
    rfl
  | cons x xs ih =>
    rw [List.foldlM_cons] at h
    cases hx : handle s x with
    | none => simp [hx] at h
    | some t =>
      rw [hx] at h
      rw [List.cons_append, handed, hx]
      simp only [ih h, List.cons_append]

theorem handed_of_foldlM {s s' : σ} {xs : List β} (h : xs.foldlM handle s = some s') :
    handed handle s xs = xs := by
  simpa using handed_append h []

end SickPool.Library.Lines
