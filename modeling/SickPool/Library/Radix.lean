import Mathlib.Data.List.TakeWhile
import Mathlib.Data.Nat.Digits.Lemmas

/-!
# Changing the radix

Numbers as lists of digits, the most significant first. A number is read digit by digit into a
buffer of fixed length in another radix: the buffer is multiplied, the digit is added, and the
carry runs from the last place to the first. When the buffer is long enough no carry is left, and
what stands behind its leading zeros are the digits of the number.
-/
namespace SickPool.Library.Radix

variable {b m : Nat}

/-- The number that a list of digits stands for. -/
def value (b : Nat) (ds : List Nat) : Nat := Nat.ofDigits b ds.reverse

/-- The digits of a number, without leading zeros. -/
def digits (b n : Nat) : List Nat := (Nat.digits b n).reverse

@[simp] theorem value_nil : value b [] = 0 := rfl

theorem value_cons (d : Nat) (ds : List Nat) : value b (d :: ds) = d * b ^ ds.length + value b ds := by
  rw [value, List.reverse_cons, Nat.ofDigits_append, Nat.ofDigits_singleton, List.length_reverse,
    Nat.mul_comm, Nat.add_comm]
  rfl

theorem value_zeros_append (n : Nat) (ds : List Nat) :
    value b (List.replicate n 0 ++ ds) = value b ds := by
  rw [value, List.reverse_append, List.reverse_replicate, Nat.ofDigits_append_replicate_zero]
  rfl

theorem value_lt (hb : 1 < b) {ds : List Nat} (h : ∀ d ∈ ds, d < b) : value b ds < b ^ ds.length := by
  rw [← List.length_reverse]
  exact Nat.ofDigits_lt_base_pow_length hb fun d hd => h d (List.mem_reverse.mp hd)

theorem value_digits (n : Nat) : value b (digits b n) = n := by
  rw [value, digits, List.reverse_reverse, Nat.ofDigits_digits]

theorem digits_lt (hb : 1 < b) {n d : Nat} (h : d ∈ digits b n) : d < b :=
  Nat.digits_lt_base hb (List.mem_reverse.mp h)

/-- Digits without leading zeros are the digits of their number. -/
theorem digits_value (hb : 1 < b) {ds : List Nat} (h : ∀ d ∈ ds, d < b)
    (hhead : ∀ hne : ds ≠ [], ds.head hne ≠ 0) : digits b (value b ds) = ds := by
  rw [digits, value, Nat.digits_ofDigits b hb ds.reverse fun d hd => h d (List.mem_reverse.mp hd)]
  · exact List.reverse_reverse ds
  · intro hne
    rw [List.getLast_reverse]
    exact hhead _

/-- The digits do not start with a zero. -/
theorem head_digits_ne_zero {n : Nat} (hne : digits b n ≠ []) : (digits b n).head hne ≠ 0 := by
  have hn : n ≠ 0 := by
    rintro rfl
    exact hne (by rw [digits, Nat.digits_zero, List.reverse_nil])
  simp only [digits, List.head_reverse]
  exact Nat.getLast_digit_ne_zero b hn

theorem replicate_takeWhile (ds : List Nat) :
    List.replicate (ds.takeWhile (· = 0)).length 0 ++ ds.dropWhile (· = 0) = ds := by
  have hzeros : ds.takeWhile (· = 0) = List.replicate (ds.takeWhile (· = 0)).length 0 :=
    List.eq_replicate_of_mem fun d hd => by simpa using List.mem_takeWhile_imp hd
  rw [← hzeros, List.takeWhile_append_dropWhile]

theorem dropWhile_zeros_eq_digits (hb : 1 < b) {ds : List Nat} (h : ∀ d ∈ ds, d < b) :
    ds.dropWhile (· = 0) = digits b (value b ds) := by
  have hvalue : value b ds = value b (ds.dropWhile (· = 0)) := by
    conv_lhs => rw [← replicate_takeWhile ds]
    exact value_zeros_append _ _
  rw [hvalue, digits_value hb fun d hd => h d (List.dropWhile_subset _ hd)]
  intro hne
  exact of_decide_eq_false (List.head_dropWhile_not (· = 0) hne)

/-- The digits of the same number in radix `b`, after as many zeros as there were. -/
def rebase (b m : Nat) (ds : List Nat) : List Nat :=
  List.replicate (ds.takeWhile (· = 0)).length 0 ++ digits b (value m ds)

theorem rebase_lt (hb : 1 < b) {ds : List Nat} {d : Nat} (h : d ∈ rebase b m ds) : d < b := by
  rcases List.mem_append.mp h with h | h
  · exact List.eq_of_mem_replicate h ▸ Nat.zero_lt_of_lt hb
  · exact digits_lt hb h

/-- Leading zeros, then what does not start with one. -/
theorem takeWhile_zeros_append (n k : Nat) :
    (List.replicate n 0 ++ digits b k).takeWhile (· = 0) = List.replicate n 0 := by
  rw [List.takeWhile_append_of_pos fun d hd => decide_eq_true (List.eq_of_mem_replicate hd)]
  cases hds : digits b k with
  | nil => exact List.append_nil _
  | cons d ds =>
    have hne : digits b k ≠ [] := hds ▸ List.cons_ne_nil d ds
    have hd : d ≠ 0 := by
      have hhead := head_digits_ne_zero hne
      simpa only [hds, List.head_cons] using hhead
    rw [List.takeWhile_cons_of_neg (by simpa using hd), List.append_nil]

/-- Changing the radix and back. -/
theorem rebase_rebase (hm : 1 < m) {ds : List Nat} (h : ∀ d ∈ ds, d < m) :
    rebase m b (rebase b m ds) = ds := by
  rw [rebase, rebase, takeWhile_zeros_append, List.length_replicate, value_zeros_append,
    value_digits, ← dropWhile_zeros_eq_digits hm h]
  exact replicate_takeWhile ds

/-- Multiply the digits by `m` and add `c`, with the carry that is left. -/
def mulAdd (b m : Nat) (ds : List Nat) (c : Nat) : List Nat × Nat :=
  ds.foldr (fun d acc => ((acc.2 + m * d) % b :: acc.1, (acc.2 + m * d) / b)) ([], c)

theorem mulAdd_length (ds : List Nat) (c : Nat) : (mulAdd b m ds c).1.length = ds.length := by
  induction ds with
  | nil => rfl
  | cons d ds ih => exact congrArg Nat.succ ih

theorem mulAdd_lt (hb : 0 < b) {ds : List Nat} {c d : Nat} (h : d ∈ (mulAdd b m ds c).1) : d < b := by
  induction ds with
  | nil => exact absurd h (List.not_mem_nil)
  | cons e ds ih =>
    rcases List.mem_cons.mp h with rfl | h
    · exact Nat.mod_lt _ hb
    · exact ih h

theorem mulAdd_value (ds : List Nat) (c : Nat) :
    value b (mulAdd b m ds c).1 + (mulAdd b m ds c).2 * b ^ ds.length = m * value b ds + c := by
  induction ds with
  | nil =>
    show value b [] + c * b ^ 0 = m * 0 + c
    simp
  | cons d ds ih =>
    have hdiv := Nat.div_add_mod ((mulAdd b m ds c).2 + m * d) b
    show value b (((mulAdd b m ds c).2 + m * d) % b :: (mulAdd b m ds c).1) +
      ((mulAdd b m ds c).2 + m * d) / b * b ^ (ds.length + 1) = _
    rw [value_cons, value_cons, mulAdd_length, pow_succ]
    calc _ = ((b * (((mulAdd b m ds c).2 + m * d) / b)) + ((mulAdd b m ds c).2 + m * d) % b) *
          b ^ ds.length + value b (mulAdd b m ds c).1 := by ring
      _ = (value b (mulAdd b m ds c).1 + (mulAdd b m ds c).2 * b ^ ds.length) +
          m * (d * b ^ ds.length) := by rw [hdiv]; ring
      _ = _ := by rw [ih]; ring

/-- With enough room no carry is left, and the value is that of the product and the sum. -/
theorem mulAdd_of_lt {ds : List Nat} {c : Nat} (h : m * value b ds + c < b ^ ds.length) :
    (mulAdd b m ds c).2 = 0 ∧ value b (mulAdd b m ds c).1 = m * value b ds + c := by
  have hvalue := mulAdd_value (b := b) (m := m) ds c
  have hcarry : (mulAdd b m ds c).2 = 0 := by
    by_contra hne
    have hle := Nat.le_mul_of_pos_left (b ^ ds.length) (Nat.pos_of_ne_zero hne)
    omega
  rw [hcarry, Nat.zero_mul, Nat.add_zero] at hvalue
  exact ⟨hcarry, hvalue⟩

/-- Read the digits `xs` in radix `m` into the buffer; `none` when a carry is left. -/
def read (b m : Nat) : List Nat → List Nat → Option (List Nat)
  | [], ds => some ds
  | x :: xs, ds =>
    if (mulAdd b m ds x).2 = 0 then read b m xs (mulAdd b m ds x).1 else none

/-- A buffer that has room for the number takes in all its digits. -/
theorem read_of_lt (hb : 0 < b) (hm : 0 < m) {xs ds : List Nat} (hds : ∀ d ∈ ds, d < b)
    (h : m ^ xs.length * value b ds + value m xs < b ^ ds.length) :
    ∃ out, read b m xs ds = some out ∧ (∀ d ∈ out, d < b) ∧
      value b out = m ^ xs.length * value b ds + value m xs := by
  induction xs generalizing ds with
  | nil =>
    refine ⟨ds, rfl, hds, ?_⟩
    rw [List.length_nil, pow_zero, Nat.one_mul, value_nil, Nat.add_zero]
  | cons x xs ih =>
    have hstep : m ^ (x :: xs).length * value b ds + value m (x :: xs) =
        m ^ xs.length * (m * value b ds + x) + value m xs := by
      rw [value_cons, List.length_cons, pow_succ]
      ring
    rw [hstep] at h ⊢
    have hle := Nat.le_mul_of_pos_left (m * value b ds + x) (Nat.pow_pos (n := xs.length) hm)
    obtain ⟨hcarry, hvalue⟩ := mulAdd_of_lt (by omega : m * value b ds + x < b ^ ds.length)
    rw [read, if_pos hcarry, ← hvalue]
    rw [← hvalue, ← mulAdd_length ds x] at h
    exact ih (fun d hd => mulAdd_lt hb hd) h

/-- A number read into an empty buffer: what stands behind the leading zeros are its digits. -/
theorem read_zeros (hb : 1 < b) (hm : 1 < m) {xs : List Nat} (hxs : ∀ x ∈ xs, x < m) {n : Nat}
    (hroom : m ^ xs.length ≤ b ^ n) :
    ∃ out, read b m xs (List.replicate n 0) = some out ∧ (∀ d ∈ out, d < b) ∧
      out.dropWhile (· = 0) = digits b (value m xs) := by
  have hzero : value b (List.replicate n 0) = 0 := by
    rw [← List.append_nil (List.replicate n 0), value_zeros_append, value_nil]
  have hfit : m ^ xs.length * value b (List.replicate n 0) + value m xs <
      b ^ (List.replicate n 0).length := by
    rw [hzero, Nat.mul_zero, Nat.zero_add, List.length_replicate]
    exact (value_lt hm hxs).trans_le hroom
  obtain ⟨out, hread, hlt, hvalue⟩ := read_of_lt (Nat.zero_lt_of_lt hb) (Nat.zero_lt_of_lt hm)
    (fun d hd => List.eq_of_mem_replicate hd ▸ Nat.zero_lt_of_lt hb) hfit
  refine ⟨out, hread, hlt, ?_⟩
  rw [dropWhile_zeros_eq_digits hb hlt, hvalue, hzero, Nat.mul_zero, Nat.zero_add]

/-- Room in proportion: `n` digits of one radix fit where `q / r` of them fit. -/
theorem pow_le_pow_div (hb : 0 < b) {q r : Nat} (hr : 0 < r) (h : m ^ r ≤ b ^ q)
    (n : Nat) : m ^ n ≤ b ^ (n * q / r + 1) := by
  refine (Nat.pow_le_pow_iff_left hr.ne').mp ?_
  calc (m ^ n) ^ r = (m ^ r) ^ n := by rw [← pow_mul, ← pow_mul, Nat.mul_comm]
    _ ≤ (b ^ q) ^ n := Nat.pow_le_pow_left h n
    _ = b ^ (n * q) := by rw [← pow_mul, Nat.mul_comm]
    _ ≤ b ^ ((n * q / r + 1) * r) :=
      Nat.pow_le_pow_right hb (Nat.le_of_lt (Nat.lt_mul_of_div_lt (Nat.lt_succ_self _) hr))
    _ = (b ^ (n * q / r + 1)) ^ r := pow_mul _ _ _

end SickPool.Library.Radix
