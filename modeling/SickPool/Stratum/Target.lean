import SickPool.Stratum.Messages
import Mathlib.Algebra.Order.Floor.Semifield
import Mathlib.Data.Rat.Floor

/-!
# The target of a difficulty

`DoubleToBin256` writes one byte of its array for every digit of its argument in base 256. A
target has 32 digits at most only for a difficulty above 1; for every other difficulty, among
them the lowest that a configuration admits, the loop goes on in front of the array.
-/
namespace SickPool.Stratum

open SickPool.Library SickPool.Library.Bytes SickPool.Utils SickPool.Shares

/-- The configuration of a protocol with `DIFF1` rounded to a double. -/
def compiledConf (p : StratumProtocol) : StaticConf := { staticConf p with DIFF1 := 2 ^ 256 }

/-! ## The digits -/

theorem leBytes_zero (w : Nat) : (leBytes w 0).reverse = List.replicate w 0 := by
  have h : leBytes w 0 = List.replicate w 0 := by
    induction w with
    | zero => rfl
    | succ w ih => rw [leBytes, Nat.zero_div, ih, List.replicate_succ]; rfl
  rw [h, List.reverse_replicate]

theorem lowByte_num (q : ℚ) : lowByte (.num q) = UInt8.ofNat (⌊q⌋₊ % 256) := by
  have hfloor : q.floor.toNat = ⌊q⌋₊ := Int.floor_toNat q
  rw [lowByte, hfloor]
  apply UInt8.toNat_inj.mp
  simp

/-- The loop gives the digits of the integer part, as long as the array has room for them. -/
theorem binLoop_num (n : Nat) {q : ℚ} (hq : 0 ≤ q) :
    binLoop n (.num q) = if q < 256 ^ n then some (leBytes n ⌊q⌋₊).reverse else none := by
  have hone : ∀ r : ℚ, (1 : Double) ≤ .num r ↔ 1 ≤ r := by
    intro r
    show (Double.num ((1 : Nat) : ℚ)) ≤ .num r ↔ _
    rw [Double.num_le_num, Nat.cast_one]
  induction n generalizing q with
  | zero =>
    simp only [binLoop, hone, pow_zero]
    by_cases h : 1 ≤ q
    · rw [if_pos h, if_neg (not_lt.mpr h)]
    · rw [if_neg h, if_pos (not_le.mp h)]
      rfl
  | succ n ih =>
    simp only [binLoop, hone]
    by_cases h : 1 ≤ q
    · have hdiv : (Double.num q) / 256 = .num (q / ((256 : Nat) : ℚ)) := rfl
      have hroom : q / ((256 : Nat) : ℚ) < 256 ^ n ↔ q < 256 ^ (n + 1) := by
        rw [div_lt_iff₀ (by norm_num), pow_succ]
        norm_num
      rw [if_pos h, hdiv, ih (div_nonneg hq (by norm_num)), Nat.floor_div_natCast, lowByte_num]
      by_cases hlt : q < 256 ^ (n + 1)
      · rw [if_pos hlt, if_pos (hroom.mpr hlt), Option.map_some, leBytes, List.reverse_cons]
      · rw [if_neg hlt, if_neg (fun hq' => hlt (hroom.mp hq'))]
        rfl
    · have hlt : q < 1 := not_le.mp h
      have hpow : q < 256 ^ (n + 1) := hlt.trans_le (one_le_pow₀ (by norm_num))
      rw [if_neg h, if_pos hpow, Nat.floor_eq_zero.mpr hlt, leBytes_zero]

/-- The text of a target: 64 digits of the integer part, for a difficulty above 1. -/
theorem getDifficultyHex_compiledConf (p : StratumProtocol) {d : ℚ} (hd : 0 < d) :
    getDifficultyHex (compiledConf p) (.num d) =
      if 1 < d then some (fmtHex 64 ⌊2 ^ 256 / d⌋₊) else none := by
  have hraw : Double.num (compiledConf p).DIFF1 * (1 / .num d) = .num (2 ^ 256 / d) := by
    change Double.num (2 ^ 256) * (Double.num ((1 : Nat) : ℚ) / .num d) = _
    rw [Double.num_div_num, if_neg hd.ne']
    change Double.num (2 ^ 256 * (((1 : Nat) : ℚ) / d)) = _
    rw [Nat.cast_one, mul_one_div]
  have hroom : (2 : ℚ) ^ 256 / d < 256 ^ 32 ↔ 1 < d := by
    rw [div_lt_iff₀ hd, show (256 : ℚ) ^ 32 = 2 ^ 256 by norm_num]
    exact lt_mul_iff_one_lt_right (by positivity)
  rw [getDifficultyHex, hraw, doubleToBin256, binLoop_num 32 (by positivity)]
  by_cases h : 1 < d
  · rw [if_pos h, if_pos (hroom.mpr h), Option.map_some]
    have hlt : ⌊(2 : ℚ) ^ 256 / d⌋₊ < 256 ^ 32 := by
      apply (Nat.floor_lt (by positivity)).mpr
      exact_mod_cast hroom.mpr h
    have htext := fmtHex_beNat (leBytes 32 ⌊(2 : ℚ) ^ 256 / d⌋₊).reverse
    rw [List.length_reverse, leBytes_length, beNat, List.reverse_reverse, leNat_leBytes,
      Nat.mod_eq_of_lt hlt] at htext
    rw [← htext]
  · rw [if_neg h, if_neg (fun hlt => h (hroom.mp hlt))]
    rfl

/-! ## The target -/

/-- A number up to the target has at least the difficulty of the target. -/
theorem difficulty_of_le_target {diff1 d : ℚ} (hdiff1 : 0 < diff1) (hd : 0 < d) {value : Nat}
    (h : value ≤ ⌊diff1 / d⌋₊) : Double.num d ≤ .num diff1 / .num value := by
  rw [Double.num_div_num]
  by_cases hz : (value : ℚ) = 0
  · rw [if_pos hz, Double.infOf, if_pos hdiff1]
    exact Double.num_le_posInf d
  · have hpos : (0 : ℚ) < value := lt_of_le_of_ne (Nat.cast_nonneg value) (Ne.symm hz)
    have hle : (value : ℚ) ≤ diff1 / d :=
      (Nat.le_floor_iff (div_nonneg hdiff1.le hd.le)).mp h
    rw [if_neg hz, Double.num_le_num, le_div_iff₀ hpos, mul_comm]
    exact (le_div_iff₀ hd).mp hle

/-- `GetDifficultyHex` stays in its array, its digits are those of the target, and a hash up
to the target has at least the difficulty, by its value and as `Process` computes it. -/
def TargetRight (p : StratumProtocol) (d : ℚ) : Prop :=
  ∃ target, getDifficultyHex (compiledConf p) (.num d) = some target ∧
    target = fmtHex 64 (min ⌊2 ^ 256 / d⌋₊ (2 ^ 256 - 1)) ∧
    ∀ hash : Hash32, leNat hash.toList ≤ hexValue target →
      .num d ≤ Double.num (compiledConf p).DIFF1 / .num (leNat hash.toList) ∧
      .num d ≤ shareDifficulty (compiledConf p) hash

/-- **When the target is right.** For every positive difficulty, if and only if it is above
1. -/
theorem target_right_iff (p : StratumProtocol) (d : ℚ) (hd : 0 < d) :
    TargetRight p d ↔ 1 < d := by
  rw [TargetRight, getDifficultyHex_compiledConf p hd]
  constructor
  · rintro ⟨target, htarget, -⟩
    by_contra h
    rw [if_neg h] at htarget
    cases htarget
  · intro h
    have hlt : ⌊(2 : ℚ) ^ 256 / d⌋₊ < 2 ^ 256 := by
      apply (Nat.floor_lt (by positivity)).mpr
      rw [div_lt_iff₀ hd]
      push_cast
      exact (lt_mul_iff_one_lt_right (by positivity)).mpr h
    refine ⟨_, if_pos h, by rw [min_eq_left (Nat.le_sub_one_of_lt hlt)], ?_⟩
    intro hash hle
    rw [hexValue_fmtHex, Nat.mod_eq_of_lt (hlt.trans_eq (by norm_num))] at hle
    have hdiff1 : (0 : ℚ) < (compiledConf p).DIFF1 := by
      show (0 : ℚ) < 2 ^ 256
      positivity
    refine ⟨difficulty_of_le_target hdiff1 hd hle, ?_⟩
    rw [shareDifficulty, bytesToDoubleLE_eq]
    exact difficulty_of_le_target hdiff1 hd ((Nat.div_le_self _ 256).trans hle)

theorem target_right_two : (1 : ℚ) < 2 ∧ TargetRight .ZEC 2 :=
  ⟨by norm_num, (target_right_iff .ZEC 2 (by norm_num)).mpr (by norm_num)⟩

/-- The lowest difficulty of `VRSC.json` and the difficulty 1 have no target of 32 bytes. -/
theorem target_out_of_bounds :
    getDifficultyHex (compiledConf .ZEC) (.num (1 / 1000000)) = none ∧
      getDifficultyHex (compiledConf .ZEC) (.num 1) = none ∧
      ¬ TargetRight .ZEC (1 / 1000000) ∧ ¬ TargetRight .ZEC 1 := by
  have hlow : getDifficultyHex (compiledConf .ZEC) (.num (1 / 1000000)) = none := by decide +kernel
  have hone : getDifficultyHex (compiledConf .ZEC) (.num 1) = none := by decide +kernel
  refine ⟨hlow, hone, ?_, ?_⟩
  · rintro ⟨target, htarget, -⟩
    rw [hlow] at htarget
    cases htarget
  · rintro ⟨target, htarget, -⟩
    rw [hone] at htarget
    cases htarget

end SickPool.Stratum
