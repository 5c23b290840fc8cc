import SickPool.Shares.ShareProcessor
import Mathlib.Algebra.BigOperators.Fin

/-!
# The value of a hash

`BytesToDoubleLE` leaves out the byte at index 0, so that every number it reads is divided by
256. It is right for the number 0 only, and so is the difficulty that `Process` computes.
-/
namespace SickPool.Shares

open SickPool.Library SickPool.Library.Bytes SickPool.Utils

theorem leNat_eq_zero_iff (bs : Bytes) : leNat bs = 0 ↔ ∀ b ∈ bs, b = 0 := by
  induction bs with
  | nil => simp
  | cons b bs ih =>
    have hb : b.toNat = 0 ↔ b = 0 := by
      rw [← UInt8.toNat_inj]
      rfl
    rw [leNat_cons, List.forall_mem_cons, ← ih, ← hb]
    omega

/-- The little-endian value as a sum over the indices. -/
theorem leNat_eq_sum {n : Nat} (bin : List.Vector UInt8 n) :
    leNat bin.toList = ∑ i : Fin n, (bin.get i).toNat * 256 ^ (i : Nat) := by
  induction n with
  | zero =>
    obtain rfl := bin.eq_nil
    rfl
  | succ n ih =>
    obtain ⟨b, bs, rfl⟩ := bin.exists_eq_cons
    rw [List.Vector.toList_cons, leNat_cons, ih, Fin.sum_univ_succ, Finset.mul_sum]
    simp only [List.Vector.get_zero, List.Vector.head_cons, Fin.val_zero, pow_zero, mul_one,
      List.Vector.get_cons_succ, Fin.val_succ, pow_succ]
    congr 1
    exact Finset.sum_congr rfl (fun i _ => by ring)

theorem bytesToDoubleLE_eq_leNat_iff (bin : Bytes) :
    bytesToDoubleLE bin = leNat bin ↔ ∀ b ∈ bin, b = 0 := by
  rw [bytesToDoubleLE_eq, Nat.cast_inj, ← leNat_eq_zero_iff]
  omega

theorem diff1_pos (p : StratumProtocol) : 0 < (staticConf p).DIFF1 := by
  cases p <;> exact (by norm_num : (0 : ℚ) < 2 ^ 256 - 1)

theorem shareDifficulty_eq_iff (p : StratumProtocol) (hash : Hash32) :
    shareDifficulty (staticConf p) hash =
        .num (staticConf p).DIFF1 / .num (leNat hash.toList) ↔ ∀ b ∈ hash.toList, b = 0 := by
  have hpos := diff1_pos p
  rw [shareDifficulty, bytesToDoubleLE_eq, ← leNat_eq_zero_iff]
  generalize leNat hash.toList = value
  constructor
  · intro h
    by_contra hne
    have hvalue : (value : ℚ) ≠ 0 := Nat.cast_ne_zero.mpr hne
    rw [Double.num_div_num, Double.num_div_num, if_neg hvalue] at h
    by_cases hz : ((value / 256 : Nat) : ℚ) = 0
    · rw [if_pos hz, Double.infOf, if_pos hpos] at h
      cases h
    · rw [if_neg hz, Double.num.injEq, div_eq_div_iff hz hvalue] at h
      have hcast := mul_left_cancel₀ hpos.ne' h
      rw [Nat.cast_inj] at hcast
      omega
  · rintro rfl
    rfl

/-- **When a hash is read as its value.** For every byte array that is not empty and every
hash, the backward conversion is the little-endian value, is the forward conversion of the
reversed array, and gives the difficulty of the value, each if and only if all bytes are 0. -/
theorem hash_value_exact_iff {n : Nat} (bin : List.Vector UInt8 (n + 1)) (p : StratumProtocol)
    (hash : Hash32) :
    (bytesToDoubleLE bin.toList = ∑ i : Fin (n + 1), ((bin.get i).toNat : ℚ) * 256 ^ (i : Nat) ↔
        ∀ b ∈ bin.toList, b = 0) ∧
      (bytesToDoubleLE bin.toList = bytesToDouble bin.toList.reverse ↔ ∀ b ∈ bin.toList, b = 0) ∧
      (shareDifficulty (staticConf p) hash =
          .num (staticConf p).DIFF1 / .num (leNat hash.toList) ↔ ∀ b ∈ hash.toList, b = 0) := by
  refine ⟨?_, ?_, shareDifficulty_eq_iff p hash⟩
  · have hsum : ∑ i : Fin (n + 1), ((bin.get i).toNat : ℚ) * 256 ^ (i : Nat) =
        (leNat bin.toList : ℚ) := by
      rw [leNat_eq_sum]
      push_cast
      rfl
    rw [hsum]
    exact bytesToDoubleLE_eq_leNat_iff bin.toList
  · rw [bytesToDouble_eq, beNat, List.reverse_reverse]
    exact bytesToDoubleLE_eq_leNat_iff bin.toList

/-- The two bytes 1 and 2 are read as 2 instead of 513, and a hash of value 256 as 1. -/
theorem hash_value_divided :
    bytesToDoubleLE [1, 2] = 2 ∧ bytesToDoubleLE [1, 2] ≠ 1 * 256 ^ 0 + 2 * 256 ^ 1 ∧
      bytesToDoubleLE [1, 2] ≠ bytesToDouble [1, 2].reverse ∧
      shareDifficulty vrscStatic (toArray 32 [0, 1]) = .num vrscStatic.DIFF1 ∧
      shareDifficulty vrscStatic (toArray 32 [0, 1]) ≠ .num vrscStatic.DIFF1 / .num 256 := by
  refine ⟨?_, ?_, ?_, ?_, ?_⟩ <;> decide +kernel

end SickPool.Shares
