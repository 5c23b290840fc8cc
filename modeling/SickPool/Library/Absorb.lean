import Mathlib.Data.List.Basic

/-!
# Absorbing a stream in blocks

A hash function of the usual kind folds its state over the blocks of a stream and keeps what
does not fill a block. What it holds after a stream depends on the stream alone, not on the
pieces in which the stream came.
-/
namespace SickPool.Library.Absorb

variable {σ α : Type*}

theorem drop_lt {n : Nat} {xs : List α} (h : 0 < n ∧ n ≤ xs.length) :
    (xs.drop n).length < xs.length := by
  rw [List.length_drop]
  omega

/-- The state after the whole blocks of `n` of a stream, and the rest of the stream. -/
def absorb (n : Nat) (f : σ → List α → σ) (s : σ) (xs : List α) : σ × List α :=
  if 0 < n ∧ n ≤ xs.length then absorb n f (f s (xs.take n)) (xs.drop n) else (s, xs)
termination_by xs.length
decreasing_by exact drop_lt ‹_›

variable {n : Nat} {f : σ → List α → σ}

theorem absorb_of_lt {s : σ} {xs : List α} (h : xs.length < n) : absorb n f s xs = (s, xs) := by
  rw [absorb, if_neg (by omega)]

theorem absorb_block {block : List α} (hn : 0 < n) (hb : block.length = n) (s : σ)
    (rest : List α) : absorb n f s (block ++ rest) = absorb n f (f s block) rest := by
  have hlen : 0 < n ∧ n ≤ (block ++ rest).length := ⟨hn, by rw [List.length_append]; omega⟩
  rw [absorb, if_pos hlen, List.take_left' hb, List.drop_left' hb]

/-- A stream of at least a block, split after the block. -/
theorem exists_block {xs : List α} (h : n ≤ xs.length) :
    ∃ block rest, xs = block ++ rest ∧ block.length = n :=
  ⟨xs.take n, xs.drop n, (List.take_append_drop n xs).symm, List.length_take_of_le h⟩

/-- More of the stream is absorbed from where the first part left off. -/
theorem absorb_append (hn : 0 < n) (s : σ) (xs ys : List α) :
    absorb n f s (xs ++ ys) = absorb n f (absorb n f s xs).1 ((absorb n f s xs).2 ++ ys) := by
  induction hk : xs.length using Nat.strongRecOn generalizing s xs with
  | ind k ih =>
    by_cases h : n ≤ xs.length
    · obtain ⟨block, rest, rfl, hb⟩ := exists_block h
      have hlt : rest.length < k := by
        rw [List.length_append] at hk
        omega
      rw [List.append_assoc, absorb_block hn hb, absorb_block hn hb]
      exact ih _ hlt _ rest rfl
    · rw [absorb_of_lt (by omega : xs.length < n)]

theorem absorb_rest_length (hn : 0 < n) (s : σ) (xs : List α) :
    (absorb n f s xs).2.length = xs.length % n := by
  induction hk : xs.length using Nat.strongRecOn generalizing s xs with
  | ind k ih =>
    by_cases h : n ≤ xs.length
    · obtain ⟨block, rest, rfl, hb⟩ := exists_block h
      rw [List.length_append] at hk
      rw [absorb_block hn hb, ih rest.length (by omega) _ rest rfl, ← hk, hb, Nat.add_mod_left]
    · rw [absorb_of_lt (by omega), Nat.mod_eq_of_lt (by omega), hk]

/-- Take in one more piece of the stream. -/
def feed (n : Nat) (f : σ → List α → σ) (st : σ × List α) (xs : List α) : σ × List α :=
  absorb n f st.1 (st.2 ++ xs)

theorem feed_feed (hn : 0 < n) (st : σ × List α) (xs ys : List α) :
    feed n f (feed n f st xs) ys = feed n f st (xs ++ ys) := by
  rw [feed, feed, feed, ← absorb_append hn, List.append_assoc]

/-- The pieces of a stream one after the other. -/
theorem foldl_feed (hn : 0 < n) (s : σ) (pieces : List (List α)) :
    pieces.foldl (feed n f) (s, []) = absorb n f s pieces.flatten := by
  suffices h : ∀ st : σ × List α, st.2.length < n →
      pieces.foldl (feed n f) st = feed n f st pieces.flatten from h (s, []) hn
  induction pieces with
  | nil =>
    intro st hst
    rw [List.foldl_nil, List.flatten_nil, feed, List.append_nil, absorb_of_lt hst]
  | cons xs pieces ih =>
    intro st hst
    have hrest : (feed n f st xs).2.length < n := by
      rw [feed, absorb_rest_length hn]
      exact Nat.mod_lt _ hn
    rw [List.foldl_cons, ih _ hrest, feed_feed hn, List.flatten_cons]

end SickPool.Library.Absorb
