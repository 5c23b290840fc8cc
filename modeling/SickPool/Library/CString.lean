import SickPool.Library.Json
import Mathlib.Data.List.TakeWhile

/-!
# Texts in C buffers

A text in a buffer ends before the first NUL. `find` is the search that `strstr` makes on
such a text, and `atoi` is glibc's: `strtol` cut down to an `int`.
-/
namespace SickPool.Library.CString

open SickPool.Library.Json

/-- The text a buffer holds. -/
def text (buff : Bytes) : Bytes := buff.takeWhile (· ≠ 0)

/-- A NUL ends the text, whatever stands behind it. -/
theorem text_append_nul (buff rest : Bytes) : text (buff ++ 0 :: rest) = text buff := by
  induction buff with
  | nil => rfl
  | cons b buff ih =>
    rw [text] at ih ⊢
    rw [text, List.cons_append, List.takeWhile_cons, List.takeWhile_cons, ih]
    rfl

theorem text_append_of_notMem {buff : Bytes} (h : 0 ∉ buff) (rest : Bytes) :
    text (buff ++ rest) = buff ++ text rest := by
  apply List.takeWhile_append_of_pos
  intro b hb
  simp only [ne_eq, decide_eq_true_eq]
  rintro rfl
  exact h hb

theorem text_prefix_append (buff rest : Bytes) : text buff <+: text (buff ++ rest) := by
  induction buff with
  | nil => exact List.nil_prefix
  | cons b buff ih =>
    rw [text, text, List.cons_append, List.takeWhile_cons, List.takeWhile_cons]
    split
    · exact List.cons_prefix_cons.mpr ⟨rfl, ih⟩
    · exact List.nil_prefix

section Find

variable {α : Type*} [DecidableEq α]

/-- Where the needle first stands in a list. -/
def find (needle : List α) : List α → Option Nat
  | [] => if needle = [] then some 0 else none
  | a :: l => if needle <+: a :: l then some 0 else (find needle l).map (· + 1)

theorem find_eq_some {needle l : List α} {j : Nat} (h : find needle l = some j) :
    needle <+: l.drop j ∧ ∀ i < j, ¬ needle <+: l.drop i := by
  induction l generalizing j with
  | nil =>
    rw [find] at h
    split at h
    · rename_i hnil
      obtain rfl := Option.some.inj h
      exact ⟨by rw [hnil]; exact List.nil_prefix, fun i hi => absurd hi (Nat.not_lt_zero i)⟩
    · exact absurd h (by simp)
  | cons a l ih =>
    rw [find] at h
    split at h
    · obtain rfl := Option.some.inj h
      exact ⟨by assumption, fun i hi => absurd hi (Nat.not_lt_zero i)⟩
    · obtain ⟨k, hk, rfl⟩ := Option.map_eq_some_iff.mp h
      obtain ⟨hpre, hfirst⟩ := ih hk
      refine ⟨hpre, ?_⟩
      intro i hi
      cases i with
      | zero => assumption
      | succ i => exact hfirst i (Nat.lt_of_succ_lt_succ hi)

/-- Where the needle stands, it is found there or before. -/
theorem find_of_prefix {needle l : List α} {j : Nat} (hj : j ≤ l.length)
    (h : needle <+: l.drop j) : ∃ k ≤ j, find needle l = some k := by
  induction l generalizing j with
  | nil =>
    have hnil : needle = [] := List.prefix_nil.mp (by simpa using h)
    exact ⟨0, Nat.zero_le j, by rw [find, if_pos hnil]⟩
  | cons a l ih =>
    rw [find]
    by_cases hhead : needle <+: a :: l
    · exact ⟨0, Nat.zero_le j, if_pos hhead⟩
    · cases j with
      | zero => exact absurd h hhead
      | succ j =>
        obtain ⟨k, hk, hfind⟩ := ih (Nat.le_of_succ_le_succ hj) h
        exact ⟨k + 1, Nat.succ_le_succ hk, by rw [if_neg hhead, hfind]; rfl⟩

/-- What is found in a list is found at the same place when more follows it. -/
theorem find_append {needle l : List α} {j : Nat} (h : find needle l = some j)
    (hj : j + needle.length ≤ l.length) (m : List α) : find needle (l ++ m) = some j := by
  obtain ⟨hpre, hfirst⟩ := find_eq_some h
  have hpre' : needle <+: (l ++ m).drop j := by
    rw [List.drop_append_of_le_length (by omega)]
    exact hpre.trans (List.prefix_append _ _)
  obtain ⟨k, hk, hfind⟩ := find_of_prefix (by rw [List.length_append]; omega) hpre'
  obtain rfl | hlt := Nat.eq_or_lt_of_le hk
  · exact hfind
  · -- an occurrence that starts before `j` ends within the list
    have hearlier := (find_eq_some hfind).1
    rw [List.drop_append_of_le_length (by omega)] at hearlier
    have hin : needle <+: l.drop k := List.prefix_of_prefix_length_le hearlier
      (List.prefix_append _ _) (by rw [List.length_drop]; omega)
    exact absurd hin (hfirst k hlt)

end Find

/-- `std::strstr`. -/
def strstr (buff needle : Bytes) : Option Nat := find needle (text buff)

/-! ## Numbers -/

/-- `isspace`. -/
def isSpace (c : UInt8) : Bool := c = 32 || (9 ≤ c && c ≤ 13)

/-- The number in front of a text, if it starts with a digit. -/
def number? (s : Bytes) : Option Nat :=
  if s.takeWhile isDigit = [] then none else some (decValue (s.takeWhile isDigit))

/-- The value of `strtol`, cut down to 32 bits. -/
def toInt (v : Int) : Int := (max (-2 ^ 63) (min (2 ^ 63 - 1) v)).bmod (2 ^ 32)

/-- `std::atoi`. -/
def atoi (s : Bytes) : Int :=
  match s.dropWhile isSpace with
  | 45 :: digits => toInt (-(decValue (digits.takeWhile isDigit)))
  | 43 :: digits => toInt (decValue (digits.takeWhile isDigit))
  | digits => toInt (decValue (digits.takeWhile isDigit))

theorem toInt_of_lt {n : Nat} (h : n < 2 ^ 31) : toInt n = n := by
  unfold toInt
  rw [min_eq_right (by omega), max_eq_right (by omega), Int.bmod_eq_of_le (by omega) (by omega)]

theorem isDigit_ne : ∀ c : UInt8, isDigit c = true → isSpace c = false ∧ c ≠ 45 ∧ c ≠ 43 :=
  Bytes.forall_byte (by decide +kernel)

/-- A number that is not too large is read as it is, with whatever behind the text it stands in. -/
theorem atoi_of_number {s : Bytes} {n : Nat} (h : number? s = some n) (hn : n < 2 ^ 31)
    (hend : ∃ c ∈ s, isDigit c = false) (rest : Bytes) : atoi (s ++ rest) = n := by
  unfold number? at h
  split at h
  · exact absurd h (by simp)
  · rename_i hne
    obtain rfl := Option.some.inj h
    obtain ⟨c, t, rfl⟩ : ∃ c t, s = c :: t := by
      cases s with
      | nil => exact absurd rfl hne
      | cons c t => exact ⟨c, t, rfl⟩
    have hc : isDigit c = true := by
      by_contra hc
      exact hne (List.takeWhile_cons_of_neg hc)
    have htake : (c :: t ++ rest).takeWhile isDigit = (c :: t).takeWhile isDigit := by
      obtain ⟨x, hx, hfalse⟩ := hend
      rw [List.takeWhile_append, if_neg]
      intro hlen
      have hall := (List.takeWhile_eq_self_iff.mp
        ((List.takeWhile_prefix (p := isDigit) (l := c :: t)).eq_of_length hlen)) x hx
      rw [hfalse] at hall
      exact absurd hall (by decide)
    have hdrop : (c :: t ++ rest).dropWhile isSpace = c :: (t ++ rest) := by
      rw [List.cons_append, List.dropWhile_cons_of_neg]
      rw [(isDigit_ne c hc).1]
      decide
    unfold atoi
    rw [hdrop]
    split
    · rename_i heq
      exact absurd (List.head_eq_of_cons_eq heq) (isDigit_ne c hc).2.1
    · rename_i heq
      exact absurd (List.head_eq_of_cons_eq heq) (isDigit_ne c hc).2.2
    · rw [← List.cons_append, htake]
      exact toInt_of_lt hn

theorem toInt_lt (v : Int) : toInt v < 2 ^ 31 :=
  Int.bmod_lt (by decide)

theorem atoi_lt (s : Bytes) : atoi s < 2 ^ 31 := by
  unfold atoi
  split <;> exact toInt_lt _

theorem toNat_atoi_lt (s : Bytes) : (atoi s).toNat < 2 ^ 31 := by
  have hlt := atoi_lt s
  omega

end SickPool.Library.CString
