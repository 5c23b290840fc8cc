import Mathlib.Data.List.Rotate
import Mathlib.Data.List.DropRight
import Mathlib.Algebra.BigOperators.Group.List.Basic

/-!
# A ring of slots that is written round and round

The ring is a list and the `k`-th write goes to slot `k` modulo its length. Read from
the slot that is written next, it holds the last values written, oldest first.
-/
namespace SickPool.Library.Ring

variable {α : Type*} {n : Nat}

/-- Read from the slot of the `k`-th write, a ring starts with what that slot holds. -/
theorem rotate_eq_cons (l : List α) (k : Nat) (hn : l.length = n) (hk : k % n < l.length) :
    l.rotate k = l[k % n] :: (l.drop (k % n + 1) ++ l.take (k % n)) := by
  subst hn
  rw [List.rotate_eq_drop_append_take_mod, List.drop_eq_getElem_cons hk, List.cons_append]

/-- A write drops the oldest value and puts the new one last. -/
theorem rotate_set (l : List α) (k : Nat) (x : α) (hn : l.length = n) (hk : k % n < l.length) :
    (l.set (k % n) x).rotate (k + 1) = (l.rotate k).tail ++ [x] := by
  have hlen : (l.set (k % n) x).length = l.length := List.length_set
  have hcons := rotate_eq_cons (l.set (k % n) x) k (hlen.trans hn) (by rw [hlen]; exact hk)
  simp only [List.getElem_set_self, List.drop_set_of_lt (Nat.lt_succ_self _),
    List.take_set_of_le (Nat.le_refl _)] at hcons
  rw [← List.rotate_rotate, hcons, List.rotate_cons_succ, List.rotate_zero,
    rotate_eq_cons l k hn hk, List.tail_cons]

/-- The sum over the ring after a write, the value overwritten added back. -/
theorem sum_set_add [AddCommMonoid α] (l : List α) (k : Nat) (x : α) (hn : l.length = n)
    (hk : k % n < l.length) : (l.set (k % n) x).sum + l[k % n] = l.sum + x := by
  have hnew := ((l.set (k % n) x).rotate_perm (k + 1)).sum_eq
  have hold := (l.rotate_perm k).sum_eq
  rw [rotate_set l k x hn hk, rotate_eq_cons l k hn hk, List.tail_cons, List.sum_append,
    List.sum_singleton] at hnew
  rw [rotate_eq_cons l k hn hk, List.sum_cons] at hold
  rw [← hnew, ← hold, add_comm, add_assoc]

/-- A ring that holds the end of a list holds the end of the list with the value written. -/
theorem rotate_set_rtake (l xs : List α) (k : Nat) (x : α) (hn : l.length = n + 1)
    (hxs : n + 1 ≤ xs.length) (h : l.rotate k = xs.rtake (n + 1)) :
    (l.set (k % (n + 1)) x).rotate (k + 1) = (xs ++ [x]).rtake (n + 1) := by
  have hk : k % (n + 1) < l.length := by
    rw [hn]
    exact Nat.mod_lt k (Nat.succ_pos n)
  rw [rotate_set l k x hn hk, h, List.rtake_concat_succ, List.rtake, List.rtake, List.tail_drop]
  congr 2
  omega

/-- What a slot of a ring holds that, read from slot `k`, is the end of a list. -/
theorem getElem?_of_rotate (l xs : List α) {k m : Nat} (hn : l.length = n)
    (hxs : xs.length = n + k) (h : l.rotate k = xs.rtake n) (hk : k ≤ m) (hm : m < k + n) :
    l[m % n]? = xs[m]? := by
  have hlt : m - k < l.length := by omega
  have hrotate := List.getElem?_rotate (n := k) hlt
  rw [h, hn, Nat.sub_add_cancel hk, List.rtake, List.getElem?_drop] at hrotate
  rw [← hrotate]
  congr 1
  omega

end SickPool.Library.Ring
