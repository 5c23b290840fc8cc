import SickPool.Library.Bytes
import Mathlib.Data.List.Induction
import Mathlib.Data.List.TakeWhile
import Mathlib.Data.Vector.Basic
import Mathlib.Data.Rat.Cast.Order
import Mathlib.Tactic.Linarith

/-!
# Hex and number conversions

The functions of `utils/hex_utils.hpp`, with doubles read as exact rationals, and
the library calls that format and parse hex numbers (`{:08x}`, `std::from_chars`
with base 16, `bswap_32`, `bswap_64`).
-/
namespace SickPool.Utils

open SickPool.Library SickPool.Library.Bytes

abbrev Hash32 := List.Vector UInt8 32

/-- The first `w` bytes of a string in a zeroed array. -/
def toArray (w : Nat) (bs : Bytes) : List.Vector UInt8 w :=
  ⟨(bs ++ List.replicate w 0).take w, by simp⟩

def hexTable : Bytes := ascii "0123456789abcdef"

def hexDigit (n : Nat) : UInt8 := hexTable.getD n 0

/-- `GetHex`: the value of a hex digit in either case, 0 for any other character. -/
def getHex (c : UInt8) : UInt8 :=
  if 48 ≤ c ∧ c ≤ 57 then c - 48
  else if 97 ≤ c ∧ c ≤ 102 then 10 + (c - 97)
  else if 65 ≤ c ∧ c ≤ 70 then 10 + (c - 65)
  else 0

def isHexDigit (c : UInt8) : Bool :=
  (48 ≤ c && c ≤ 57) || (97 ≤ c && c ≤ 102) || (65 ≤ c && c ≤ 70)

def hexlifyByte (val : UInt8) : Bytes :=
  if val < 16 then [hexDigit 0, hexDigit val.toNat]
  else
    let c2Val := val % 16
    [hexDigit ((val - c2Val) / 16).toNat, hexDigit c2Val.toNat]

/-- `Hexlify`, `HexlifyS`. -/
def hexlify (src : Bytes) : Bytes := src.flatMap hexlifyByte

/-- `Unhexlify`: one byte for every two characters. -/
def unhexlify : Bytes → Bytes
  | c1 :: c2 :: rest => (getHex c2 + getHex c1 * 16) :: unhexlify rest
  | _ => []

/-- `BIN_TO_DOUBLE_1B`, the body of `BytesToDouble` and `HexToDouble`. -/
def bytesToDouble (bin : Bytes) : ℚ := bin.foldl (fun res b => res * 256 + b.toNat) 0

/-- `BIN_TO_DOUBLE_1B_LE`: the loop runs down from the last index and stops before
index 0. -/
def bytesToDoubleLE (bin : Bytes) : ℚ :=
  (bin.drop 1).reverse.foldl (fun res b => res * 256 + b.toNat) 0

/-- `HexToDouble(std::string_view)`: the text is copied into 64 zeroed characters. -/
def hexToDouble (hex : Bytes) : ℚ :=
  bytesToDouble (unhexlify ((hex ++ List.replicate 64 0).take 64))

/-- `{:0wx}` of a number below `16 ^ w`: its `w` lower-case digits. -/
def fmtHex : Nat → Nat → Bytes
  | 0, _ => []
  | w + 1, n => fmtHex w (n / 16) ++ [hexDigit (n % 16)]

/-- `{}` of an unsigned number. -/
def fmtDec (n : Nat) : Bytes := ascii (toString n)

/-- `bswap_32` and `bswap_64`: the value with its `w` bytes reversed. -/
def bswap (w n : Nat) : Nat := leNat (leBytes w n).reverse

def hexValue (digits : Bytes) : Nat :=
  digits.foldl (fun v c => v * 16 + (getHex c).toNat) 0

/-- `std::from_chars` with base 16 into a variable that holds `old`: the leading
digits are read; without one, or past the type's range, the variable keeps its value. -/
def fromChars16 (limit old : Nat) (text : Bytes) : Nat :=
  let digits := text.takeWhile isHexDigit
  if digits = [] then old
  else if hexValue digits < limit then hexValue digits else old

/-! ## Hex strings and bytes -/

theorem getHex_hexDigit {n : Nat} (h : n < 16) : (getHex (hexDigit n)).toNat = n := by
  have hall : ∀ m : Fin 16, (getHex (hexDigit m)).toNat = m := by decide
  exact hall ⟨n, h⟩

theorem isHexDigit_hexDigit {n : Nat} (h : n < 16) : isHexDigit (hexDigit n) = true := by
  have hall : ∀ m : Fin 16, isHexDigit (hexDigit m) = true := by decide
  exact hall ⟨n, h⟩

theorem getHex_lt (c : UInt8) : (getHex c).toNat < 16 :=
  forall_byte (p := fun c => (getHex c).toNat < 16) (by decide +kernel) c

theorem hexlifyByte_eq (b : UInt8) :
    hexlifyByte b = [hexDigit (b.toNat / 16), hexDigit (b.toNat % 16)] :=
  forall_byte (p := fun b => hexlifyByte b = [hexDigit (b.toNat / 16), hexDigit (b.toNat % 16)])
    (by decide +kernel) b

theorem hexPair_toNat (c1 c2 : UInt8) :
    (getHex c2 + getHex c1 * 16).toNat = (getHex c1).toNat * 16 + (getHex c2).toNat := by
  have h1 := getHex_lt c1
  have h2 := getHex_lt c2
  rw [UInt8.toNat_add, UInt8.toNat_mul]
  change ((getHex c2).toNat + (getHex c1).toNat * 16 % 256) % 256 = _
  omega

@[simp] theorem hexlify_nil : hexlify [] = [] := rfl

theorem hexlify_cons (b : UInt8) (bs : Bytes) :
    hexlify (b :: bs) = hexDigit (b.toNat / 16) :: hexDigit (b.toNat % 16) :: hexlify bs := by
  rw [hexlify, List.flatMap_cons, hexlifyByte_eq]
  rfl

@[simp] theorem hexlify_length (bs : Bytes) : (hexlify bs).length = 2 * bs.length := by
  induction bs with
  | nil => rfl
  | cons b bs ih => rw [hexlify_cons, List.length_cons, List.length_cons, ih, List.length_cons]; omega

theorem hexlify_append (as bs : Bytes) : hexlify (as ++ bs) = hexlify as ++ hexlify bs := by
  simp [hexlify]

theorem unhexlify_hexlify (bs : Bytes) : unhexlify (hexlify bs) = bs := by
  induction bs with
  | nil => rfl
  | cons b bs ih =>
    have hb := b.toNat_lt
    have hhigh : b.toNat / 16 < 16 := by omega
    have hlow : b.toNat % 16 < 16 := by omega
    rw [hexlify_cons, unhexlify, ih]
    congr 1
    apply UInt8.toNat_inj.mp
    rw [hexPair_toNat, getHex_hexDigit hhigh, getHex_hexDigit hlow]
    omega

theorem isHexDigit_of_mem_hexlify {bs : Bytes} {c : UInt8} (h : c ∈ hexlify bs) :
    isHexDigit c = true := by
  induction bs with
  | nil => simp at h
  | cons b bs ih =>
    have hb := b.toNat_lt
    rw [hexlify_cons] at h
    rcases List.mem_cons.mp h with rfl | h
    · exact isHexDigit_hexDigit (by omega)
    rcases List.mem_cons.mp h with rfl | h
    · exact isHexDigit_hexDigit (by omega)
    · exact ih h

theorem unhexlify_length (s : Bytes) : (unhexlify s).length = s.length / 2 := by
  fun_induction unhexlify s with
  | case1 c1 c2 rest ih => simp only [List.length_cons, ih]; omega
  | case2 s h =>
    match s, h with
    | [], _ => simp
    | [_], _ => simp
    | c1 :: c2 :: rest, h => exact absurd rfl (h c1 c2 rest)

theorem unhexlify_append {s : Bytes} (hs : s.length % 2 = 0) (t : Bytes) :
    unhexlify (s ++ t) = unhexlify s ++ unhexlify t := by
  fun_induction unhexlify s with
  | case1 c1 c2 rest ih =>
    have hrest : rest.length % 2 = 0 := by
      simp only [List.length_cons] at hs
      omega
    rw [List.cons_append, List.cons_append, unhexlify, ih hrest]
    rfl
  | case2 s h =>
    match s, h with
    | [], _ => rfl
    | [_], _ => simp at hs
    | c1 :: c2 :: rest, h => exact absurd rfl (h c1 c2 rest)

/-! ## Formatted numbers -/

theorem isHexDigit_of_mem_fmtHex {w n : Nat} {c : UInt8} (h : c ∈ fmtHex w n) :
    isHexDigit c = true := by
  induction w generalizing n with
  | zero => simp [fmtHex] at h
  | succ w ih =>
    rw [fmtHex] at h
    rcases List.mem_append.mp h with h | h
    · exact ih h
    · rw [List.mem_singleton] at h
      exact h ▸ isHexDigit_hexDigit (Nat.mod_lt _ (by decide))

/-- The digits of the big-endian value of a byte string are the digits of its bytes. -/
theorem fmtHex_beNat (bs : Bytes) : fmtHex (2 * bs.length) (beNat bs) = hexlify bs := by
  induction bs using List.reverseRecOn with
  | nil => rfl
  | append_singleton bs b ih =>
    have hb := b.toNat_lt
    have hw : 2 * (bs ++ [b]).length = 2 * bs.length + 1 + 1 := by simp; omega
    have hrest : (beNat bs * 256 + b.toNat) / 16 / 16 = beNat bs := by omega
    have hhigh : (beNat bs * 256 + b.toNat) / 16 % 16 = b.toNat / 16 := by omega
    have hlow : (beNat bs * 256 + b.toNat) % 16 = b.toNat % 16 := by omega
    rw [hw, beNat_append_singleton, fmtHex, fmtHex, hrest, hhigh, hlow, ih, hexlify_append,
      hexlify_cons, hexlify_nil, List.append_assoc]
    rfl

/-- `{:08x}` of a byte-swapped number is the text of its bytes in memory order. -/
theorem fmtHex_bswap (w n : Nat) : fmtHex (2 * w) (bswap w n) = hexlify (leBytes w n) := by
  have h := fmtHex_beNat (leBytes w n)
  rwa [leBytes_length] at h

theorem hexValue_foldl (text : Bytes) (v : Nat) :
    text.foldl (fun v c => v * 16 + (getHex c).toNat) v = v * 16 ^ text.length + hexValue text := by
  induction text generalizing v with
  | nil => simp [hexValue]
  | cons c text ih =>
    rw [hexValue, List.foldl_cons, List.foldl_cons, ih, ih, List.length_cons, pow_succ]
    ring

/-- The digits of `{:0wx}` read back: the number below `16 ^ w`. -/
theorem hexValue_fmtHex (w n : Nat) : hexValue (fmtHex w n) = n % 16 ^ w := by
  induction w generalizing n with
  | zero => simp [fmtHex, hexValue, Nat.mod_one]
  | succ w ih =>
    have hstep : hexValue (fmtHex (w + 1) n) = hexValue (fmtHex w (n / 16)) * 16 + n % 16 := by
      rw [fmtHex, hexValue, List.foldl_append, List.foldl_cons, List.foldl_nil,
        getHex_hexDigit (Nat.mod_lt n (by decide)), hexValue]
    rw [hstep, ih, Nat.pow_succ', Nat.mod_mul]
    omega

theorem fmtHex_inj {w m n : Nat} (hm : m < 16 ^ w) (hn : n < 16 ^ w)
    (h : fmtHex w m = fmtHex w n) : m = n := by
  have hv := congrArg hexValue h
  rwa [hexValue_fmtHex, hexValue_fmtHex, Nat.mod_eq_of_lt hm, Nat.mod_eq_of_lt hn] at hv

theorem hexValue_cons_cons (c1 c2 : UInt8) (rest : Bytes) :
    hexValue (c1 :: c2 :: rest) =
      ((getHex c1).toNat * 16 + (getHex c2).toNat) * 16 ^ rest.length + hexValue rest := by
  rw [hexValue, List.foldl_cons, List.foldl_cons, hexValue_foldl]
  simp

/-- The value of an even number of hex digits is the big-endian value of their bytes. -/
theorem hexValue_eq (text : Bytes) (h : text.length % 2 = 0) :
    hexValue text = beNat (unhexlify text) := by
  fun_induction unhexlify text with
  | case1 c1 c2 rest ih =>
    have hlen : rest.length % 2 = 0 := by simp at h; omega
    have hpow : (256 : Nat) ^ (unhexlify rest).length = 16 ^ rest.length := by
      rw [unhexlify_length, show (256 : Nat) = 16 ^ 2 by decide, ← pow_mul]
      congr 1
      omega
    rw [hexValue_cons_cons, ih hlen, beNat, beNat, List.reverse_cons, leNat_append, leNat_cons,
      leNat_nil, hexPair_toNat, List.length_reverse, hpow]
    ring
  | case2 s hs =>
    rcases s with _ | ⟨c1, _ | ⟨c2, rest⟩⟩
    · rfl
    · simp at h
    · exact absurd rfl (hs c1 c2 rest)

/-- Reading `2 w` hex digits and swapping the bytes gives the number whose bytes in
memory order are the ones written. -/
theorem leBytes_bswap_fromChars16 {w old : Nat} {text : Bytes} (hlen : text.length = 2 * w)
    (hw : 0 < w) (hhex : ∀ c ∈ text, isHexDigit c = true) :
    leBytes w (bswap w (fromChars16 (256 ^ w) old text)) = unhexlify text := by
  have hbytes : (unhexlify text).length = w := by rw [unhexlify_length]; omega
  have hall : text.takeWhile isHexDigit = text := List.takeWhile_eq_self_iff.mpr hhex
  have hne : text ≠ [] := by
    intro he
    simp [he] at hlen
    omega
  have hlt : hexValue text < 256 ^ w := by
    rw [hexValue_eq text (by omega)]
    simpa [hbytes] using beNat_lt (unhexlify text)
  have hval : fromChars16 (256 ^ w) old text = beNat (unhexlify text) := by
    simp only [fromChars16, hall, if_neg hne, if_pos hlt]
    exact hexValue_eq text (by omega)
  have hrev : leBytes w (beNat (unhexlify text)) = (unhexlify text).reverse := by
    have h := leBytes_leNat (unhexlify text).reverse
    rwa [List.length_reverse, hbytes] at h
  rw [hval, bswap, hrev, List.reverse_reverse]
  have h := leBytes_leNat (unhexlify text)
  rwa [hbytes] at h

/-! ## Numbers -/

theorem foldl_bytes (bs : Bytes) (r : ℚ) :
    bs.foldl (fun res b => res * 256 + (b.toNat : ℚ)) r = r * 256 ^ bs.length + beNat bs := by
  induction bs using List.reverseRecOn with
  | nil => simp [beNat]
  | append_singleton bs b ih =>
    rw [List.foldl_append, ih, beNat_append_singleton]
    simp only [List.foldl_cons, List.foldl_nil, List.length_append, List.length_singleton, pow_succ]
    push_cast
    ring

theorem bytesToDouble_eq (bin : Bytes) : bytesToDouble bin = beNat bin := by
  rw [bytesToDouble, foldl_bytes]
  simp

/-- The backward conversion leaves out the least significant byte: it is the
little-endian value without its last 8 bits. -/
theorem bytesToDoubleLE_eq (bin : Bytes) : bytesToDoubleLE bin = (leNat bin / 256 : Nat) := by
  rw [bytesToDoubleLE, foldl_bytes, beNat, List.reverse_reverse]
  cases bin with
  | nil => simp
  | cons b bs =>
    have hb := b.toNat_lt
    have hdiv : leNat (b :: bs) / 256 = leNat bs := by rw [leNat_cons]; omega
    rw [hdiv]
    simp

/-- The number written by 64 hex digits, most significant first. -/
theorem hexToDouble_eq {hex : Bytes} (h : hex.length = 64) :
    hexToDouble hex = beNat (unhexlify hex) := by
  rw [hexToDouble, bytesToDouble_eq, List.take_append_of_le_length (by omega),
    List.take_of_length_le (by omega)]

end SickPool.Utils
