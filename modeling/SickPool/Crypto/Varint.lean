import Mathlib.Data.Nat.Bitwise
import Mathlib.Tactic.Ring
import SickPool.Library.Bytes

/-!
# Variable-length integers

`write_varint` and `read_varint` of `cn/common/varint.h`: seven bits a byte, the lowest first,
and the top bit set on every byte but the last.
-/
namespace SickPool.Crypto.Varint

open SickPool.Library SickPool.Library.Bytes

def writeVarint (i : ℕ) : Bytes :=
  if 0x80 ≤ i then ((UInt8.ofNat i &&& 0x7f) ||| 0x80) :: writeVarint (i >>> 7)
  else [UInt8.ofNat i]
termination_by i
decreasing_by
  rw [Nat.shiftRight_eq_div_pow]
  omega

/-- The loop of `read_varint<bits>`: what it returns, the integer, and the input left. -/
def readVarintLoop (bits : ℕ) : Bytes → ℕ → ℕ → ℕ → ℤ × ℕ × Bytes
  | [], _, read, i => (read, i, [])
  | byte :: rest, shift, read, i =>
    if bits ≤ shift + 7 ∧ 1 <<< (bits - shift) ≤ byte.toNat then (-1, i, rest)
    else if byte = 0 ∧ shift ≠ 0 then (-2, i, rest)
    else
      let i := (i ||| (byte &&& 0x7f).toNat <<< shift) % 2 ^ bits
      if byte &&& 0x80 = 0 then ((read + 1 : ℕ), i, rest)
      else readVarintLoop bits rest (shift + 7) (read + 1) i

def readVarint (bits : ℕ) (data : Bytes) : ℤ × ℕ × Bytes := readVarintLoop bits data 0 0 0

/-! ## Bytes -/

theorem and_low (byte : UInt8) : (byte &&& 0x7f).toNat = byte.toNat % 128 := by
  rw [UInt8.toNat_and]
  exact Nat.and_two_pow_sub_one_eq_mod _ 7

theorem and_top (byte : UInt8) : byte &&& 0x80 = 0 ↔ byte.toNat < 128 := by
  have hall : ∀ n < 256, (n &&& 128 = 0 ↔ n < 128) := by decide +kernel
  rw [← UInt8.toNat_inj, UInt8.toNat_and]
  exact hall byte.toNat byte.toNat_lt

theorem toNat_continued (i : ℕ) :
    ((UInt8.ofNat i &&& 0x7f) ||| 0x80).toNat = i % 128 + 128 := by
  have hall : ∀ n < 128, n ||| 128 = n + 128 := by decide +kernel
  rw [UInt8.toNat_or, and_low, UInt8.toNat_ofNat', Nat.mod_mod_of_dvd _ (by decide)]
  exact hall _ (Nat.mod_lt _ (by decide))

theorem writeVarint_small {i : ℕ} (hi : i < 128) : writeVarint i = [UInt8.ofNat i] := by
  rw [writeVarint, if_neg (by omega)]

theorem writeVarint_large {i : ℕ} (hi : 128 ≤ i) :
    writeVarint i = UInt8.ofNat (i % 128 + 128) :: writeVarint (i / 128) := by
  rw [writeVarint, if_pos hi, Nat.shiftRight_eq_div_pow]
  congr 1
  rw [← UInt8.toNat_inj, toNat_continued, UInt8.toNat_ofNat']
  omega

/-! ## Reading -/

section Read

variable {bits shift read i : ℕ} {byte : UInt8} {rest : Bytes}

/-- What one byte adds to the integer. -/
def add (byte : UInt8) (shift i : ℕ) : ℕ := i + byte.toNat % 128 * 2 ^ shift

theorem add_eq_or (hi : i < 2 ^ shift) :
    i ||| (byte &&& 0x7f).toNat <<< shift = add byte shift i := by
  rw [and_low, Nat.or_comm, ← Nat.shiftLeft_add_eq_or_of_lt hi, Nat.shiftLeft_eq, Nat.add_comm,
    add]

theorem add_lt (hi : i < 2 ^ shift) : add byte shift i < 2 ^ (shift + 7) := by
  have hbyte := Nat.mul_le_mul_right (2 ^ shift) (show byte.toNat % 128 ≤ 127 by omega)
  rw [add, Nat.pow_add]
  omega

/-- A byte is refused as an overflow exactly when the integer would not fit. -/
theorem overflow_iff (hshift : shift < bits) (hi : i < 2 ^ shift) :
    (bits ≤ shift + 7 ∧ 1 <<< (bits - shift) ≤ byte.toNat) ↔
      bits ≤ shift + 7 ∧ 2 ^ bits ≤ i + byte.toNat * 2 ^ shift := by
  have hsplit : 2 ^ bits = 2 ^ (bits - shift) * 2 ^ shift := by
    rw [← Nat.pow_add, Nat.sub_add_cancel (Nat.le_of_lt hshift)]
  rw [Nat.shiftLeft_eq, Nat.one_mul, hsplit, and_congr_right_iff]
  intro _
  constructor
  · intro hle
    exact Nat.le_add_left_of_le (Nat.mul_le_mul_right _ hle)
  · intro hle
    by_contra hlt
    have := Nat.mul_le_mul_right (2 ^ shift) (show byte.toNat + 1 ≤ 2 ^ (bits - shift) by omega)
    rw [Nat.add_mul] at this
    omega

/-- The last byte of an integer. -/
theorem readVarintLoop_last (hshift : shift < bits) (hi : i < 2 ^ shift)
    (hbyte : byte.toNat < 128) (hcanonical : byte.toNat ≠ 0 ∨ shift = 0)
    (hfit : i + byte.toNat * 2 ^ shift < 2 ^ bits) :
    readVarintLoop bits (byte :: rest) shift read i =
      (((read + 1 : ℕ) : ℤ), i + byte.toNat * 2 ^ shift, rest) := by
  have hzero : ¬(byte = 0 ∧ shift ≠ 0) := by
    rintro ⟨rfl, hne⟩
    exact hcanonical.elim (fun h => h rfl) hne
  rw [readVarintLoop, if_neg (by rw [overflow_iff hshift hi]; omega), if_neg hzero]
  simp only
  rw [if_pos ((and_top byte).mpr hbyte), add_eq_or hi, add, Nat.mod_eq_of_lt hbyte,
    Nat.mod_eq_of_lt hfit]

/-- A byte with the top bit set. -/
theorem readVarintLoop_continued (hi : i < 2 ^ shift) (hbyte : 128 ≤ byte.toNat)
    (hshift : shift + 7 < bits) :
    readVarintLoop bits (byte :: rest) shift read i =
      readVarintLoop bits rest (shift + 7) (read + 1) (add byte shift i) := by
  have hzero : ¬(byte = 0 ∧ shift ≠ 0) := by
    rintro ⟨rfl, -⟩
    exact absurd hbyte (by decide)
  have hsum : add byte shift i < 2 ^ bits :=
    (add_lt hi).trans (Nat.pow_lt_pow_right (by decide) hshift)
  rw [readVarintLoop, if_neg (by omega), if_neg hzero]
  simp only
  rw [if_neg (by rw [and_top]; omega), add_eq_or hi, Nat.mod_eq_of_lt hsum]

end Read

/-! ## Round trip -/

theorem readVarintLoop_writeVarint {bits shift i n : ℕ} (read : ℕ) (rest : Bytes)
    (hshift : shift < bits) (hi : i < 2 ^ shift) (hcanonical : n ≠ 0 ∨ shift = 0)
    (hfit : i + n * 2 ^ shift < 2 ^ bits) :
    readVarintLoop bits (writeVarint n ++ rest) shift read i =
      (((read + (writeVarint n).length : ℕ) : ℤ), i + n * 2 ^ shift, rest) := by
  induction n using Nat.strongRecOn generalizing shift read i with
  | ind n ih =>
    by_cases hn : n < 128
    · have hbyte : (UInt8.ofNat n).toNat = n := by
        rw [UInt8.toNat_ofNat']
        omega
      rw [writeVarint_small hn, List.singleton_append,
        readVarintLoop_last hshift hi (by omega) (by omega) (by rwa [hbyte]), hbyte,
        List.length_singleton]
    · have hbyte : (UInt8.ofNat (n % 128 + 128)).toNat = n % 128 + 128 := by
        rw [UInt8.toNat_ofNat']
        omega
      have hadd : add (UInt8.ofNat (n % 128 + 128)) shift i = i + n % 128 * 2 ^ shift := by
        rw [add, hbyte]
        congr 2
        omega
      have hsum : i + n % 128 * 2 ^ shift + n / 128 * 2 ^ (shift + 7) = i + n * 2 ^ shift := by
        conv_rhs => rw [← Nat.div_add_mod n 128]
        rw [Nat.pow_add]
        ring
      have hlarge : shift + 7 < bits := by
        have := Nat.mul_le_mul_right (2 ^ shift) (show 128 ≤ n by omega)
        refine (Nat.pow_lt_pow_iff_right (show 1 < 2 by decide)).mp ?_
        rw [Nat.pow_add]
        omega
      have hi' : i + n % 128 * 2 ^ shift < 2 ^ (shift + 7) := hadd ▸ add_lt hi
      rw [writeVarint_large (by omega), List.cons_append,
        readVarintLoop_continued hi (by omega) hlarge, hadd,
        ih (n / 128) (by omega) (read + 1) hlarge hi' (by omega) (by omega), hsum,
        List.length_cons]
      congr 2
      omega

/-- What is read without an error is a canonical integer that fits, or the input ends inside of
an integer. -/
theorem readVarintLoop_nonneg {bits shift i : ℕ} (read : ℕ) (data : Bytes)
    (hshift : shift < bits) (hi : i < 2 ^ shift)
    (hok : 0 ≤ (readVarintLoop bits data shift read i).1) :
    (∃ n rest, data = writeVarint n ++ rest ∧ (n ≠ 0 ∨ shift = 0) ∧
      i + n * 2 ^ shift < 2 ^ bits) ∨ ∀ byte ∈ data, 128 ≤ byte.toNat := by
  induction data generalizing shift read i with
  | nil => exact .inr (by simp)
  | cons byte rest ih =>
    have hover : ¬(bits ≤ shift + 7 ∧ 1 <<< (bits - shift) ≤ byte.toNat) := by
      intro h
      rw [readVarintLoop, if_pos h] at hok
      exact absurd hok (by simp)
    have hcanonical : byte.toNat ≠ 0 ∨ shift = 0 := by
      by_contra hno
      rw [not_or, not_not] at hno
      rw [readVarintLoop, if_neg hover, if_pos ⟨UInt8.toNat_inj.mp hno.1, hno.2⟩] at hok
      exact absurd hok (by simp)
    rw [overflow_iff hshift hi] at hover
    by_cases hbyte : byte.toNat < 128
    · refine .inl ⟨byte.toNat, rest, ?_, hcanonical, ?_⟩
      · rw [writeVarint_small hbyte, UInt8.ofNat_toNat, List.singleton_append]
      · by_cases hlast : bits ≤ shift + 7
        · omega
        · have : add byte shift i < 2 ^ (shift + 7) := add_lt hi
          rw [add, Nat.mod_eq_of_lt hbyte] at this
          exact this.trans_le (Nat.pow_le_pow_right (by decide) (by omega))
    · have hlarge : shift + 7 < bits := by
        by_contra hno
        have hword := Nat.pow_le_pow_right (show 0 < 2 by decide) (show bits ≤ shift + 7 by omega)
        have := Nat.mul_le_mul_right (2 ^ shift) (show 128 ≤ byte.toNat by omega)
        rw [Nat.pow_add] at hword
        omega
      rw [readVarintLoop_continued hi (by omega) hlarge] at hok
      rcases ih (read + 1) hlarge (add_lt hi) hok with ⟨n, rest', rfl, hn, hfit⟩ | hall
      · have hn : n ≠ 0 := by omega
        have hlarge : 128 ≤ byte.toNat % 128 + 128 * n := by omega
        have hfirst : (byte.toNat % 128 + 128 * n) % 128 + 128 = byte.toNat := by
          have := byte.toNat_lt
          omega
        have hrest : (byte.toNat % 128 + 128 * n) / 128 = n := by omega
        refine .inl ⟨byte.toNat % 128 + 128 * n, rest', ?_, .inl (by omega), ?_⟩
        · rw [writeVarint_large hlarge, hfirst, hrest, UInt8.ofNat_toNat, List.cons_append]
        · have hsum : i + (byte.toNat % 128 + 128 * n) * 2 ^ shift =
              add byte shift i + n * 2 ^ (shift + 7) := by
            rw [add, Nat.pow_add]
            ring
          omega
      · refine .inr fun b hb => ?_
        rcases List.mem_cons.mp hb with rfl | hb
        · omega
        · exact hall b hb

theorem readVarint_writeVarint {bits n : ℕ} (rest : Bytes) (hbits : 0 < bits)
    (hn : n < 2 ^ bits) :
    readVarint bits (writeVarint n ++ rest) = (((writeVarint n).length : ℤ), n, rest) := by
  rw [readVarint, readVarintLoop_writeVarint 0 rest hbits (by decide) (.inr rfl) (by simpa)]
  simp

/-- Of an input that does not end inside of an integer, `read_varint` accepts what `write_varint`
writes of the integers that fit, and nothing else. -/
theorem readVarint_eq_iff {bits n : ℕ} {data rest : Bytes} (hbits : 0 < bits)
    (hlast : ∃ byte ∈ data, byte.toNat < 128) :
    (∃ read : ℕ, readVarint bits data = ((read : ℤ), n, rest)) ↔
      data = writeVarint n ++ rest ∧ n < 2 ^ bits := by
  constructor
  · rintro ⟨read, hread⟩
    have hok : 0 ≤ (readVarintLoop bits data 0 0 0).1 := by
      rw [← readVarint, hread]
      exact Int.natCast_nonneg read
    rcases readVarintLoop_nonneg 0 data hbits (by decide) hok with ⟨m, rest', rfl, -, hm⟩ | hall
    · have hm : m < 2 ^ bits := by simpa using hm
      rw [readVarint_writeVarint rest' hbits hm, Prod.mk.injEq, Prod.mk.injEq] at hread
      obtain ⟨-, rfl, rfl⟩ := hread
      exact ⟨rfl, hm⟩
    · obtain ⟨byte, hmem, hbyte⟩ := hlast
      exact absurd (hall byte hmem) (by omega)
  · rintro ⟨rfl, hn⟩
    exact ⟨_, readVarint_writeVarint rest hbits hn⟩

theorem readVarint_eq_iff_two_bytes :
    (∃ read : ℕ, readVarint 64 [0xac, 0x02, 0xff] = ((read : ℤ), 300, [0xff])) ↔
      [0xac, 0x02, 0xff] = writeVarint 300 ++ [0xff] ∧ 300 < 2 ^ 64 :=
  readVarint_eq_iff (by decide) ⟨2, by decide, by decide⟩

end SickPool.Crypto.Varint
