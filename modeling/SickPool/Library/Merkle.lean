import Mathlib.Data.List.Basic
import Mathlib.Data.List.TakeDrop
import Mathlib.Tactic.Common

/-!
# Merkle roots

The root over a list of leaves for an arbitrary hash of two children. A level is made of
the one below by pairing neighbours, the last element of an odd level with itself, until one
element is left.
-/
namespace SickPool.Library.Merkle

variable {α : Type*} (h : α → α → α) (d : α)

def pairUp : List α → List α
  | [] => []
  | [a] => [h a a]
  | a :: b :: rest => h a b :: pairUp rest

theorem pairUp_length (l : List α) : (pairUp h l).length = (l.length + 1) / 2 := by
  fun_induction pairUp h l with
  | case1 => simp
  | case2 a => simp
  | case3 a b rest ih =>
    simp only [List.length_cons, ih]
    omega

/-- The root; of no leaves it is `d`. -/
def root : List α → α
  | [] => d
  | [a] => a
  | a :: b :: rest => root (pairUp h (a :: b :: rest))
termination_by l => l.length
decreasing_by
  rw [pairUp_length]
  simp only [List.length_cons]
  omega

theorem root_singleton (a : α) : root h d [a] = a := by rw [root]

theorem root_pairUp {l : List α} (hl : 1 < l.length) : root h d (pairUp h l) = root h d l := by
  rcases l with _ | ⟨a, _ | ⟨b, rest⟩⟩
  · simp at hl
  · simp at hl
  · conv_rhs => rw [root]

/-- An odd level may be written out with its last element twice. -/
theorem pairUp_repeat_last (l : List α) (hl : l.length % 2 = 1) :
    pairUp h (l ++ [l.getLastD d]) = pairUp h l := by
  fun_induction pairUp h l with
  | case1 => simp at hl
  | case2 a => rfl
  | case3 a b rest ih =>
    have hodd : rest.length % 2 = 1 := by
      simp only [List.length_cons] at hl
      omega
    have hlast : (a :: b :: rest).getLastD d = rest.getLastD d := by
      cases rest with
      | nil => simp at hodd
      | cons c rest => rfl
    rw [hlast, List.cons_append, List.cons_append, pairUp, ih hodd]

/-- The elements of the level above an even level. -/
theorem pairUp_eq_map {m : Nat} {l : List α} (hl : l.length = 2 * m) :
    pairUp h l = (List.range m).map (fun j => h (l.getD (2 * j) d) (l.getD (2 * j + 1) d)) := by
  induction m generalizing l with
  | zero =>
    obtain rfl := List.length_eq_zero_iff.mp hl
    rfl
  | succ m ih =>
    rcases l with _ | ⟨a, _ | ⟨b, rest⟩⟩
    · simp at hl
    · simp at hl
      omega
    · have hrest : rest.length = 2 * m := by
        simp only [List.length_cons] at hl
        omega
      rw [pairUp, ih hrest, List.range_succ_eq_map, List.map_cons, List.map_map]
      rfl

theorem pairUp_right (l : List α) : (pairUp (fun _ b => b) l).getLastD d = l.getLastD d := by
  fun_induction pairUp (fun _ b : α => b) l generalizing d with
  | case1 => rfl
  | case2 a => rfl
  | case3 a b rest ih =>
    rw [List.getLastD_cons, List.getLastD_cons, List.getLastD_cons]
    exact ih b

/-- When a pair is hashed to its right child, the root is the last leaf. -/
theorem root_right (l : List α) : root (fun _ b => b) d l = l.getLastD d := by
  fun_induction root (fun _ b => b) d l with
  | case1 => rfl
  | case2 a => rfl
  | case3 a b rest ih => rw [ih, pairUp_right]

/-! ## Roots that identify their leaves -/

/-- The pairs that are hashed for the level above. -/
def pairs : List α → List (α × α)
  | [] => []
  | [a] => [(a, a)]
  | a :: b :: rest => (a, b) :: pairs rest

/-- No pair of the one list has the hash of another pair of the other list. -/
def NoCollision (ps qs : List (α × α)) : Prop :=
  ∀ p ∈ ps, ∀ q ∈ qs, h p.1 p.2 = h q.1 q.2 → p = q

variable {h} {d}

theorem NoCollision.append {ps ps' qs qs' : List (α × α)}
    (hno : NoCollision h (ps ++ ps') (qs ++ qs')) :
    NoCollision h ps qs ∧ NoCollision h ps' qs' :=
  ⟨fun p hp q hq => hno p (List.mem_append_left _ hp) q (List.mem_append_left _ hq),
    fun p hp q hq => hno p (List.mem_append_right _ hp) q (List.mem_append_right _ hq)⟩

theorem pairUp_inj {l l' : List α} (hlen : l.length = l'.length)
    (hno : NoCollision h (pairs l) (pairs l')) (heq : pairUp h l = pairUp h l') : l = l' := by
  fun_induction pairUp h l generalizing l' with
  | case1 => exact (List.length_eq_zero_iff.mp hlen.symm).symm
  | case2 a =>
    obtain ⟨a', rfl⟩ := List.length_eq_one_iff.mp hlen.symm
    have hpair := hno (a, a) List.mem_cons_self (a', a') List.mem_cons_self
      (List.singleton_inj.mp heq)
    rw [(Prod.mk.inj hpair).1]
  | case3 a b rest ih =>
    rcases l' with _ | ⟨a', _ | ⟨b', rest'⟩⟩
    · simp at hlen
    · simp at hlen
    · rw [pairUp, List.cons.injEq] at heq
      have hsplit : NoCollision h ([(a, b)] ++ pairs rest) ([(a', b')] ++ pairs rest') := hno
      obtain ⟨hhead, htail⟩ := hsplit.append
      obtain ⟨rfl, rfl⟩ := Prod.mk.inj
        (hhead (a, b) List.mem_cons_self (a', b') List.mem_cons_self heq.1)
      rw [ih (by simpa using hlen) htail heq.2]

end SickPool.Library.Merkle
