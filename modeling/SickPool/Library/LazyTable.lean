import Mathlib.Logic.Function.Basic

/-!
# Tables filled on demand

A table has a row of words for each index and starts blank. Rows are written a word at a time
by writers that share the table, and each writer writes the word of a fixed value. What such a
table holds can be said word by word: a word that is right stays right.
-/
namespace SickPool.Library.LazyTable

variable {ι α : Type*} {n : Nat}

abbrev Table (ι α : Type*) (n : Nat) := ι → Vector α n

/-- Word `k` of row `i` is that of the value. -/
def Right (value table : Table ι α n) (i : ι) (k : Fin n) : Prop :=
  (table i).get k = (value i).get k

theorem eq_of_right {value table : Table ι α n} {i : ι} (h : ∀ k, Right value table i k) :
    table i = value i :=
  Vector.ext fun k hk => h ⟨k, hk⟩

theorem right_of_eq {value table : Table ι α n} {i : ι} (h : table i = value i) (k : Fin n) :
    Right value table i k := by
  rw [Right, h]

variable [DecidableEq ι]

/-- `table[i].words[k] = a`. -/
def writeWord (table : Table ι α n) (i : ι) (k : Fin n) (a : α) : Table ι α n :=
  Function.update table i ((table i).set k a k.isLt)

theorem writeWord_of_ne {table : Table ι α n} {i j : ι} (h : j ≠ i) (k : Fin n) (a : α) :
    writeWord table i k a j = table j :=
  Function.update_of_ne h _ _

theorem right_writeWord_self (value table : Table ι α n) (i : ι) (k : Fin n) :
    Right value (writeWord table i k ((value i).get k)) i k := by
  rw [Right, writeWord, Function.update_self]
  exact Vector.getElem_set_self k.isLt

/-- A writer never spoils a word. -/
theorem Right.writeWord {value table : Table ι α n} {j : ι} {m : Fin n} (h : Right value table j m)
    (i : ι) (k : Fin n) : Right value (writeWord table i k ((value i).get k)) j m := by
  by_cases hj : j = i
  · subst hj
    by_cases hm : m = k
    · subst hm
      exact right_writeWord_self value table j m
    · rw [Right, LazyTable.writeWord, Function.update_self]
      exact (Vector.getElem_set_ne k.isLt m.isLt (fun he => hm (Fin.ext he.symm))).trans h
  · rw [Right, writeWord_of_ne hj]
    exact h

/-- Rows written one after the other hold their values; the others are as they were. -/
theorem foldl_update {value : Table ι α n} (rows : List ι) (table : Table ι α n) (j : ι) :
    rows.foldl (fun t i => Function.update t i (value i)) table j =
      if j ∈ rows then value j else table j := by
  induction rows generalizing table with
  | nil => simp
  | cons i rows ih =>
    rw [List.foldl_cons, ih]
    by_cases hj : j = i
    · subst hj
      simp
    · simp [hj]

end SickPool.Library.LazyTable
