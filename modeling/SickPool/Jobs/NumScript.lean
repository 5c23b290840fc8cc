import SickPool.Jobs.BlockBytes

/-!
# Numbers in scripts

`GenNumScript` on every signed number. A script number is its magnitude, least significant byte
first, with the sign in the top bit of the last byte; where the magnitude needs that bit itself
the sign has a byte of its own.
-/
namespace SickPool.Jobs.NumScript

open SickPool.Library SickPool.Library.Bytes

/-! ## Reading -/

/-- The bits of a script but the top one of the last byte. -/
def magnitude (script : Bytes) : Nat := leNat script % (128 * 256 ^ (script.length - 1))

/-- The number a script stands for; none at all is 0. -/
def decode (script : Bytes) : Int :=
  if 128 ≤ script.getLastD 0 then -(magnitude script : Int) else magnitude script

theorem natAbs_decode (script : Bytes) : (decode script).natAbs = magnitude script := by
  unfold decode
  split
  · rw [Int.natAbs_neg, Int.natAbs_natCast]
  · exact Int.natAbs_natCast _

theorem magnitude_lt {script : Bytes} {k : Nat} (h : script.length ≤ k + 1) :
    magnitude script < 128 * 256 ^ k := by
  have hpow : 256 ^ (script.length - 1) ≤ 256 ^ k :=
    Nat.pow_le_pow_right (by decide) (by omega)
  have hpos : 0 < 256 ^ (script.length - 1) := Nat.pow_pos (by decide)
  have hmod := Nat.mod_lt (leNat script) (Nat.mul_pos (by decide : 0 < 128) hpos)
  unfold magnitude
  omega

theorem magnitude_concat (script : Bytes) (b : UInt8) :
    magnitude (script ++ [b]) = leNat script + 256 ^ script.length * (b.toNat % 128) := by
  have hlt := leNat_lt script
  have hsplit : 256 ^ script.length * b.toNat =
      256 ^ script.length * (b.toNat % 128) + 128 * 256 ^ script.length * (b.toNat / 128) := by
    rw [Nat.mul_comm 128, Nat.mul_assoc, ← Nat.mul_add, Nat.mod_add_div]
  have hlow : 256 ^ script.length * (b.toNat % 128) ≤ 256 ^ script.length * 127 :=
    Nat.mul_le_mul_left _ (by omega)
  have hvalue : leNat (script ++ [b]) = leNat script + 256 ^ script.length * b.toNat := by
    rw [leNat_append, leNat_cons, leNat_nil, Nat.mul_zero, Nat.add_zero]
  rw [magnitude, hvalue, List.length_append, List.length_singleton, Nat.add_sub_cancel, hsplit,
    ← Nat.add_assoc, Nat.add_mul_mod_self_left]
  exact Nat.mod_eq_of_lt (by omega)

/-! ## Writing -/

/-- `GenNumScript`. The magnitude of an `int64_t` has eight bytes at most. -/
def genNumScript (value : Int) : Bytes :=
  let neg := decide (value < 0)
  if value = 0 then [0]
  else
    let result := absBytes 8 value.natAbs
    if 128 ≤ result.getLastD 0 then result ++ [if neg then 128 else 0]
    else if neg then result.dropLast ++ [result.getLastD 0 ||| 128]
    else result

/-- On a number that is not negative it is the function the transaction count is written with. -/
theorem genNumScript_natCast (n : Nat) : genNumScript n = Jobs.genNumScript n := by
  have hneg : ¬ (n : Int) < 0 := by omega
  simp [genNumScript, Jobs.genNumScript, hneg]

/-- The last byte of a magnitude is not 0. -/
theorem absBytes_concat {fuel n : Nat} (hn : 0 < n) (h : n < 256 ^ fuel) :
    ∃ init b, absBytes fuel n = init ++ [b] ∧ 0 < b.toNat := by
  induction fuel generalizing n with
  | zero =>
    rw [pow_zero] at h
    omega
  | succ fuel ih =>
    rw [absBytes, if_neg hn.ne']
    by_cases hdiv : n / 256 = 0
    · refine ⟨[], UInt8.ofNat (n % 256), ?_, ?_⟩
      · rw [hdiv]
        cases fuel <;> rfl
      · rw [UInt8.toNat_ofNat']
        omega
    · have hlt : n / 256 < 256 ^ fuel := by
        rw [Nat.div_lt_iff_lt_mul (by decide)]
        exact h.trans_eq (Nat.pow_succ ..)
      obtain ⟨init, b, hrest, hb⟩ := ih (Nat.pos_of_ne_zero hdiv) hlt
      exact ⟨UInt8.ofNat (n % 256) :: init, b, by rw [hrest, List.cons_append], hb⟩

/-- What `GenNumScript` writes: a magnitude that ends in `b`, and the sign in a byte of its own or
in the top bit of `b`. -/
theorem genNumScript_cases {value : Int} (hne : value ≠ 0) (hlt : value.natAbs < 2 ^ 64) :
    ∃ init b, leNat init + 256 ^ init.length * b.toNat = value.natAbs ∧ 0 < b.toNat ∧
      ((128 ≤ b ∧ genNumScript value = (init ++ [b]) ++ [if value < 0 then 128 else 0]) ∨
        (b < 128 ∧ genNumScript value = init ++ [if value < 0 then b ||| 128 else b])) := by
  have hpos : 0 < value.natAbs := Int.natAbs_pos.mpr hne
  have hfits : value.natAbs < 256 ^ 8 := hlt.trans_eq (by decide)
  obtain ⟨init, b, habs, hb⟩ := absBytes_concat hpos hfits
  have hvalue := leNat_absBytes hfits
  rw [habs, leNat_append, leNat_cons, leNat_nil, Nat.mul_zero, Nat.add_zero] at hvalue
  refine ⟨init, b, hvalue, hb, ?_⟩
  simp only [genNumScript, if_neg hne, habs, List.getLastD_concat, List.dropLast_concat,
    decide_eq_true_eq]
  by_cases htop : 128 ≤ b
  · exact .inl ⟨htop, if_pos htop⟩
  · refine .inr ⟨UInt8.not_le.mp htop, ?_⟩
    rw [if_neg htop]
    split <;> rfl

/-- Every `int64_t` but the least one, whose negation overflows. -/
def InRange (value : Int) : Prop := -2 ^ 63 < value ∧ value < 2 ^ 63

theorem InRange.natAbs_lt {value : Int} (h : InRange value) : value.natAbs < 2 ^ 64 := by
  obtain ⟨hlow, hhigh⟩ := h
  omega

/-- The sign is read back with its magnitude. -/
theorem decode_eq {script : Bytes} {value : Int} (hmagnitude : magnitude script = value.natAbs)
    (hsign : 128 ≤ script.getLastD 0 ↔ value < 0) : decode script = value := by
  rw [decode, hmagnitude]
  split
  · rename_i htop
    have hneg := hsign.mp htop
    omega
  · rename_i htop
    have hneg := mt hsign.mpr htop
    omega

theorem toNat_or_128 {b : UInt8} (h : b < 128) : (b ||| 128).toNat = b.toNat + 128 :=
  forall_byte (p := fun b => b < 128 → (b ||| 128).toNat = b.toNat + 128) (by decide +kernel) b h

theorem decode_genNumScript {value : Int} (h : InRange value) :
    decode (genNumScript value) = value := by
  by_cases hne : value = 0
  · rw [hne]
    rfl
  obtain ⟨init, b, hvalue, -, hcases⟩ := genNumScript_cases hne h.natAbs_lt
  have hb := b.toNat_lt
  rcases hcases with ⟨-, hscript⟩ | ⟨hlow, hscript⟩
  · -- the sign has a byte of its own
    have hbyte : leNat (init ++ [b]) = value.natAbs := by
      rw [leNat_append, leNat_cons, leNat_nil, Nat.mul_zero, Nat.add_zero, hvalue]
    rw [hscript]
    apply decode_eq
    · rw [magnitude_concat, hbyte]
      split <;> rfl
    · rw [List.getLastD_concat]
      split
      · rename_i hneg
        exact iff_of_true (by decide) hneg
      · rename_i hneg
        exact iff_of_false (by decide) hneg
  · have hlow' : b.toNat < 128 := hlow
    rw [hscript]
    apply decode_eq
    · rw [magnitude_concat]
      split
      · rw [toNat_or_128 hlow, Nat.add_mod_right, Nat.mod_eq_of_lt hlow', hvalue]
      · rw [Nat.mod_eq_of_lt hlow', hvalue]
    · rw [List.getLastD_concat]
      split
      · rename_i hneg
        apply iff_of_true _ hneg
        rw [UInt8.le_iff_toNat_le, toNat_or_128 hlow]
        exact Nat.le_add_left ..
      · rename_i hneg
        exact iff_of_false (UInt8.not_le.mpr hlow) hneg

/-- A shorter script has a smaller magnitude. -/
theorem magnitude_lt_of_shorter {value : Int} (hne : value ≠ 0) (h : InRange value)
    {script : Bytes} (hshort : script.length < (genNumScript value).length) :
    magnitude script < value.natAbs := by
  obtain ⟨init, b, hvalue, hpos, hcases⟩ := genNumScript_cases hne h.natAbs_lt
  rcases hcases with ⟨htop, hscript⟩ | ⟨-, hscript⟩
  · rw [hscript, List.length_append, List.length_append, List.length_singleton,
      List.length_singleton] at hshort
    have hlt := magnitude_lt (k := init.length) (by omega : script.length ≤ init.length + 1)
    have hmul : 256 ^ init.length * 128 ≤ 256 ^ init.length * b.toNat :=
      Nat.mul_le_mul_left _ htop
    omega
  · rw [hscript, List.length_append, List.length_singleton] at hshort
    have hmul : 256 ^ init.length * 1 ≤ 256 ^ init.length * b.toNat :=
      Nat.mul_le_mul_left _ hpos
    rcases Nat.eq_zero_or_pos init.length with h0 | hlen
    · have hnil := List.length_eq_zero_iff.mp (by omega : script.length = 0)
      rw [hnil]
      show 0 < value.natAbs
      exact Int.natAbs_pos.mpr hne
    · obtain ⟨k, hk⟩ := Nat.exists_eq_add_of_lt hlen
      have hlt := magnitude_lt (k := k) (by omega : script.length ≤ k + 1)
      have hpow : 256 ^ init.length = 256 ^ k * 256 := by
        rw [← Nat.pow_succ]
        congr 1
        omega
      omega

/-- A script number is read back, no shorter script is read as the same number, and two numbers
have two scripts. -/
theorem genNumScript_minimal (v w : Int) (hv : InRange v) (hw : InRange w) :
    decode (genNumScript v) = v ∧
      (v ≠ 0 → ∀ script, decode script = v → (genNumScript v).length ≤ script.length) ∧
      (v ≠ w → genNumScript v ≠ genNumScript w) := by
  refine ⟨decode_genNumScript hv, ?_, ?_⟩
  · intro hne script hscript
    by_contra hshort
    have hlt := magnitude_lt_of_shorter hne hv (Nat.not_le.mp hshort)
    rw [← natAbs_decode, hscript] at hlt
    exact Nat.lt_irrefl _ hlt
  · intro hne heq
    apply hne
    rw [← decode_genNumScript hv, heq, decode_genNumScript hw]

theorem genNumScript_minimal_boundary :
    decode (genNumScript (-128)) = -128 ∧
      (∀ script, decode script = -128 → (genNumScript (-128)).length ≤ script.length) ∧
      genNumScript (-128) ≠ genNumScript 127 := by
  obtain ⟨hread, hshort, hne⟩ :=
    genNumScript_minimal (-128) 127 ⟨by decide, by decide⟩ ⟨by decide, by decide⟩
  exact ⟨hread, hshort (by decide), hne (by decide)⟩

end SickPool.Jobs.NumScript
