import SickPool.Library.Bytes
import Mathlib.Data.List.TakeWhile

/-!
# Base58

`DecodeBase58` of `crypto/base58.cpp`. It is given a `std::string` and works on the C
string in it, so it sees the bytes before the first NUL; it skips white space at both
ends.
-/
namespace SickPool.Crypto.Base58

open SickPool.Library SickPool.Library.Bytes

def pszBase58 : Bytes := ascii "123456789ABCDEFGHJKLMNPQRSTUVWXYZabcdefghijkmnopqrstuvwxyz"

def isspace (c : UInt8) : Bool := c = 32 || (9 ≤ c && c ≤ 13)

/-- `strchr(pszBase58, c) - pszBase58` for a character other than NUL. -/
def digitOf (c : UInt8) : Option Nat := pszBase58.findIdx? (· = c)

/-- `b256 = b256 * 58 + ch`, from the last byte of the vector to the first, with the
carry that is left. -/
def mulAdd (b256 : Bytes) (ch : Nat) : Bytes × Nat :=
  b256.foldr (fun b acc =>
    (UInt8.ofNat ((acc.2 + 58 * b.toNat) % 256) :: acc.1, (acc.2 + 58 * b.toNat) / 256)) ([], ch)

/-- The loop over the characters. It ends at the end of the string or at white space;
`none` is a character outside the alphabet, or a carry that is not 0. -/
def decodeLoop : Bytes → Bytes → Option (Bytes × Bytes)
  | [], b256 => some ([], b256)
  | c :: rest, b256 =>
    if isspace c then some (c :: rest, b256)
    else match digitOf c with
      | none => none
      | some ch => if (mulAdd b256 ch).2 = 0 then decodeLoop rest (mulAdd b256 ch).1 else none

/-- `DecodeBase58(const char*, vch)` on the characters of a C string. -/
def decodeCString (psz : Bytes) : Option Bytes :=
  let psz := psz.dropWhile isspace
  let zeroes := (psz.takeWhile (· = 49)).length
  let psz := psz.dropWhile (· = 49)
  match decodeLoop psz (List.replicate (psz.length * 733 / 1000 + 1) 0) with
  | none => none
  | some (rest, b256) =>
    if rest.dropWhile isspace = [] then
      some (List.replicate zeroes 0 ++ b256.dropWhile (· = 0))
    else none

def cString (str : Bytes) : Bytes := str.takeWhile (· ≠ 0)

def decodeBase58 (str : Bytes) : Option Bytes := decodeCString (cString str)

def isAddressChar (c : UInt8) : Prop := isspace c = true ∨ c ∈ pszBase58

theorem digitOf_mem {c : UInt8} {n : Nat} (h : digitOf c = some n) : c ∈ pszBase58 := by
  unfold digitOf at h
  obtain ⟨hlt, hc, -⟩ := List.findIdx?_eq_some_iff_getElem.mp h
  exact of_decide_eq_true hc ▸ List.getElem_mem hlt

theorem decodeLoop_chars {s b256 rest out : Bytes} (h : decodeLoop s b256 = some (rest, out)) :
    ∃ read, s = read ++ rest ∧ ∀ c ∈ read, c ∈ pszBase58 := by
  induction s generalizing b256 with
  | nil =>
    cases h
    exact ⟨[], rfl, by simp⟩
  | cons c s ih =>
    unfold decodeLoop at h
    split at h
    · cases h
      exact ⟨[], rfl, by simp⟩
    · split at h
      · cases h
      · rename_i ch hd
        split at h
        · obtain ⟨read, hs, hread⟩ := ih h
          refine ⟨c :: read, by rw [hs, List.cons_append], ?_⟩
          intro x hx
          rcases List.mem_cons.mp hx with rfl | hx
          · exact digitOf_mem hd
          · exact hread x hx
        · cases h

/-- What `DecodeBase58` lets through: white space and characters of the alphabet up to
the first NUL. -/
theorem decodeBase58_chars {str out : Bytes} (h : decodeBase58 str = some out) :
    ∀ c ∈ cString str, isAddressChar c := by
  unfold decodeBase58 decodeCString at h
  simp only at h
  split at h
  · cases h
  · rename_i rest b256 hloop
    split at h
    · rename_i htail
      obtain ⟨read, hs, hread⟩ := decodeLoop_chars hloop
      intro c hc
      rw [← List.takeWhile_append_dropWhile (p := isspace) (l := cString str)] at hc
      rcases List.mem_append.mp hc with hc | hc
      · exact .inl (List.mem_takeWhile_imp hc)
      rw [← List.takeWhile_append_dropWhile (p := (· = 49))
        (l := (cString str).dropWhile isspace)] at hc
      rcases List.mem_append.mp hc with hc | hc
      · have h49 : c = 49 := by simpa using List.mem_takeWhile_imp hc
        exact .inr (h49 ▸ by decide)
      rw [hs] at hc
      rcases List.mem_append.mp hc with hc | hc
      · exact .inr (hread c hc)
      · rw [← List.takeWhile_append_dropWhile (p := isspace) (l := rest), htail,
          List.append_nil] at hc
        exact .inl (List.mem_takeWhile_imp hc)
    · cases h

end SickPool.Crypto.Base58
