import SickPool.Crypto.Keccak
import SickPool.Ethash.Dataset

/-!
# Keccak of ethash

`ethash/keccakf1600.c`, `keccakf800.c` and `keccak.c`. The two permutations are the same unrolled
lines on words of 64 and 32 bits, with other rotations and constants; the sponge takes the last
block in word by word instead of building it in a buffer.
-/
namespace SickPool.Ethash

open SickPool.Library SickPool.Library.Bytes SickPool.Library.Absorb SickPool.Library.Keccak
open SickPool.Crypto.Keccak

variable {w : Nat}

scoped instance turns24 : NeZero 24 := ⟨by decide⟩

def rol (x : BitVec w) (s : Nat) : BitVec w := (x <<< s) ||| (x >>> (w - s))

/-- One round of the unrolled loop, whose body is two such rounds with `A` and `E` exchanged. The
rotations stand in the order of the lines. -/
def unrolledRound (r : Vector Nat 24) (rc : BitVec w) (A : State w) : State w :=
  let Aba := A[0]; let Abe := A[1]; let Abi := A[2]; let Abo := A[3]; let Abu := A[4]
  let Aga := A[5]; let Age := A[6]; let Agi := A[7]; let Ago := A[8]; let Agu := A[9]
  let Aka := A[10]; let Ake := A[11]; let Aki := A[12]; let Ako := A[13]; let Aku := A[14]
  let Ama := A[15]; let Ame := A[16]; let Ami := A[17]; let Amo := A[18]; let Amu := A[19]
  let Asa := A[20]; let Ase := A[21]; let Asi := A[22]; let Aso := A[23]; let Asu := A[24]
  let Ba := Aba ^^^ Aga ^^^ Aka ^^^ Ama ^^^ Asa
  let Be := Abe ^^^ Age ^^^ Ake ^^^ Ame ^^^ Ase
  let Bi := Abi ^^^ Agi ^^^ Aki ^^^ Ami ^^^ Asi
  let Bo := Abo ^^^ Ago ^^^ Ako ^^^ Amo ^^^ Aso
  let Bu := Abu ^^^ Agu ^^^ Aku ^^^ Amu ^^^ Asu
  let Da := Bu ^^^ rol Be 1
  let De := Ba ^^^ rol Bi 1
  let Di := Be ^^^ rol Bo 1
  let Do := Bi ^^^ rol Bu 1
  let Du := Bo ^^^ rol Ba 1
  let Ba := Aba ^^^ Da
  let Be := rol (Age ^^^ De) (r.get 0)
  let Bi := rol (Aki ^^^ Di) (r.get 1)
  let Bo := rol (Amo ^^^ Do) (r.get 2)
  let Bu := rol (Asu ^^^ Du) (r.get 3)
  let Eba := Ba ^^^ (~~~Be &&& Bi) ^^^ rc
  let Ebe := Be ^^^ (~~~Bi &&& Bo)
  let Ebi := Bi ^^^ (~~~Bo &&& Bu)
  let Ebo := Bo ^^^ (~~~Bu &&& Ba)
  let Ebu := Bu ^^^ (~~~Ba &&& Be)
  let Ba := rol (Abo ^^^ Do) (r.get 4)
  let Be := rol (Agu ^^^ Du) (r.get 5)
  let Bi := rol (Aka ^^^ Da) (r.get 6)
  let Bo := rol (Ame ^^^ De) (r.get 7)
  let Bu := rol (Asi ^^^ Di) (r.get 8)
  let Ega := Ba ^^^ (~~~Be &&& Bi)
  let Ege := Be ^^^ (~~~Bi &&& Bo)
  let Egi := Bi ^^^ (~~~Bo &&& Bu)
  let Ego := Bo ^^^ (~~~Bu &&& Ba)
  let Egu := Bu ^^^ (~~~Ba &&& Be)
  let Ba := rol (Abe ^^^ De) (r.get 9)
  let Be := rol (Agi ^^^ Di) (r.get 10)
  let Bi := rol (Ako ^^^ Do) (r.get 11)
  let Bo := rol (Amu ^^^ Du) (r.get 12)
  let Bu := rol (Asa ^^^ Da) (r.get 13)
  let Eka := Ba ^^^ (~~~Be &&& Bi)
  let Eke := Be ^^^ (~~~Bi &&& Bo)
  let Eki := Bi ^^^ (~~~Bo &&& Bu)
  let Eko := Bo ^^^ (~~~Bu &&& Ba)
  let Eku := Bu ^^^ (~~~Ba &&& Be)
  let Ba := rol (Abu ^^^ Du) (r.get 14)
  let Be := rol (Aga ^^^ Da) (r.get 15)
  let Bi := rol (Ake ^^^ De) (r.get 16)
  let Bo := rol (Ami ^^^ Di) (r.get 17)
  let Bu := rol (Aso ^^^ Do) (r.get 18)
  let Ema := Ba ^^^ (~~~Be &&& Bi)
  let Eme := Be ^^^ (~~~Bi &&& Bo)
  let Emi := Bi ^^^ (~~~Bo &&& Bu)
  let Emo := Bo ^^^ (~~~Bu &&& Ba)
  let Emu := Bu ^^^ (~~~Ba &&& Be)
  let Ba := rol (Abi ^^^ Di) (r.get 19)
  let Be := rol (Ago ^^^ Do) (r.get 20)
  let Bi := rol (Aku ^^^ Du) (r.get 21)
  let Bo := rol (Ama ^^^ Da) (r.get 22)
  let Bu := rol (Ase ^^^ De) (r.get 23)
  let Esa := Ba ^^^ (~~~Be &&& Bi)
  let Ese := Be ^^^ (~~~Bi &&& Bo)
  let Esi := Bi ^^^ (~~~Bo &&& Bu)
  let Eso := Bo ^^^ (~~~Bu &&& Ba)
  let Esu := Bu ^^^ (~~~Ba &&& Be)
  #v[Eba, Ebe, Ebi, Ebo, Ebu,
    Ega, Ege, Egi, Ego, Egu,
    Eka, Eke, Eki, Eko, Eku,
    Ema, Eme, Emi, Emo, Emu,
    Esa, Ese, Esi, Eso, Esu]

/-- The loop of an unrolled permutation, two rounds a turn. -/
def unrolled (r : Vector Nat 24) (rc : Nat → BitVec w) (turns : Nat) (state : State w) : State w :=
  (List.range turns).foldl (fun A i =>
    unrolledRound r (rc (2 * i + 1)) (unrolledRound r (rc (2 * i)) A)) state

def roundConstants1600 : Vector (BitVec 64) 24 := #v[
  0x0000000000000001#64, 0x0000000000008082#64, 0x800000000000808a#64, 0x8000000080008000#64,
  0x000000000000808b#64, 0x0000000080000001#64, 0x8000000080008081#64, 0x8000000000008009#64,
  0x000000000000008a#64, 0x0000000000000088#64, 0x0000000080008009#64, 0x000000008000000a#64,
  0x000000008000808b#64, 0x800000000000008b#64, 0x8000000000008089#64, 0x8000000000008003#64,
  0x8000000000008002#64, 0x8000000000000080#64, 0x000000000000800a#64, 0x800000008000000a#64,
  0x8000000080008081#64, 0x8000000000008080#64, 0x0000000080000001#64, 0x8000000080008008#64]

def ethash_keccakf1600 (state : State 64) : State 64 :=
  unrolled #v[44, 43, 21, 14, 28, 20, 3, 45, 61, 1, 6, 25, 8, 18, 27, 36, 10, 15, 56, 62, 55, 39, 41, 2]
    (fun i => roundConstants1600.get (Fin.ofNat 24 i)) 12 state

def roundConstants800 : Vector (BitVec 32) 22 := #v[
  0x00000001, 0x00008082, 0x0000808A, 0x80008000, 0x0000808B, 0x80000001,
  0x80008081, 0x00008009, 0x0000008A, 0x00000088, 0x80008009, 0x8000000A,
  0x8000808B, 0x0000008B, 0x00008089, 0x00008003, 0x00008002, 0x00000080,
  0x0000800A, 0x8000000A, 0x80008081, 0x00008080]

def ethash_keccakf800 (state : State 32) : State 32 :=
  unrolled #v[12, 11, 21, 14, 28, 20, 3, 13, 29, 1, 6, 25, 8, 18, 27, 4, 10, 15, 24, 30, 23, 7, 9, 2]
    (fun i => roundConstants800.get (Fin.ofNat 22 i)) 11 state

/-! ## The permutations of the standard -/

/-- The rotations in the order of the lines, for words of `w` bits. -/
def lineOffsets (w : Nat) : Vector Nat 24 := #v[
  offset 1 1 % w, offset 2 2 % w, offset 3 3 % w, offset 4 4 % w,
  offset 3 0 % w, offset 4 1 % w, offset 0 2 % w, offset 1 3 % w,
  offset 2 4 % w, offset 1 0 % w, offset 2 1 % w, offset 3 2 % w,
  offset 4 3 % w, offset 0 4 % w, offset 4 0 % w, offset 0 1 % w,
  offset 1 2 % w, offset 2 3 % w, offset 3 4 % w, offset 2 0 % w,
  offset 3 1 % w, offset 4 2 % w, offset 0 3 % w, offset 1 4 % w]

theorem lane_build (f : Nat → Nat → BitVec w) (x y : Nat) : lane (build f) x y = f (x % 5) (y % 5) := by
  have hx : (x % 5 + 5 * (y % 5)) % 5 = x % 5 := by omega
  have hy : (x % 5 + 5 * (y % 5)) / 5 = y % 5 := by omega
  show (Vector.ofFn _)[x % 5 + 5 * (y % 5)] = _
  rw [Vector.getElem_ofFn]
  simp only [hx, hy]

theorem getElem_build (f : Nat → Nat → BitVec w) {k : Nat} (hk : k < 25) :
    (build f)[k] = f (k % 5) (k / 5) := Vector.getElem_ofFn hk

theorem rol_zero (x : BitVec w) : rol x 0 = x := by
  rw [rol, BitVec.shiftLeft_zero, Nat.sub_zero, BitVec.ushiftRight_eq_zero (Nat.le_refl w),
    BitVec.or_zero]

/-- What the theta step adds to the lanes at `x`. -/
def added (A : State w) (x : Nat) : BitVec w := parity A (x + 4) ^^^ rol (parity A (x + 1)) 1

/-- A lane after the first three steps of a round, by the place it came from. -/
def turned (A : State w) (x y : Nat) : BitVec w := rol (lane A x y ^^^ added A x) (offset x y % w)

theorem turned_zero (A : State w) : turned A 0 0 = lane A 0 0 ^^^ added A 0 := by
  have hoffset : offset 0 0 = 0 := by decide +kernel
  rw [turned, hoffset, Nat.zero_mod, rol_zero]

theorem lane_rhoPi_theta (hw : 1 < w) (A : State w) (x y : Nat) :
    lane (rhoPi (theta A)) x y = turned A ((x + 3 * y) % 5) (x % 5) := by
  have hturn : ∀ n (B : BitVec w), B.rotateLeft n = rol B (n % w) := fun _ _ => rfl
  have hplace : (x + 3 * (y % 5)) % 5 = (x + 3 * y) % 5 := by omega
  rw [rhoPi, lane_build, theta, lane_build]
  simp only [hturn, turned, added, Nat.mod_eq_of_lt hw, lane, parity, offset, Nat.mod_mod,
    Nat.mod_add_mod, hplace]

/-- The unrolled lines are a round of the standard. -/
theorem unrolledRound_eq (hw : 1 < w) (rc : BitVec w) (A : State w) :
    unrolledRound (lineOffsets w) rc A = iota rc (chi (rhoPi (theta A))) := by
  refine Vector.ext fun k hk => ?_
  rw [iota, getElem_build, chi]
  simp only [lane_build, lane_rhoPi_theta hw]
  -- the lane that is not turned is in the first row, at the places 0, 3 and 4
  interval_cases k
  case «0» | «3» | «4» =>
    simp only [Nat.reduceMod, Nat.reduceDiv, Nat.reduceMul, Nat.reduceAdd, turned_zero]
    rfl
  all_goals
    rw [if_neg (by decide)]
    rfl

theorem unrolled_eq (hw : 1 < w) {rc : Nat → BitVec w} {turns : Nat}
    (hrc : ∀ i < 2 * turns, rc i = roundConstant w i) (state : State w) :
    unrolled (lineOffsets w) rc turns state = permute (2 * turns) state := by
  induction turns with
  | zero => rw [unrolled, permute, List.range_zero, List.foldl_nil, List.foldl_nil]
  | succ n ih =>
    rw [unrolled, List.range_succ, List.foldl_append, ← unrolled, ih fun i hi => hrc i (by omega),
      List.foldl_cons, List.foldl_nil, unrolledRound_eq hw, unrolledRound_eq hw,
      hrc (2 * n) (by omega), hrc (2 * n + 1) (by omega)]
    show _ = permute (2 * n + 1 + 1) state
    rw [permute_succ, permute_succ, Keccak.round, Keccak.round]

theorem lineOffsets_64 : lineOffsets 64 =
    #v[44, 43, 21, 14, 28, 20, 3, 45, 61, 1, 6, 25, 8, 18, 27, 36, 10, 15, 56, 62, 55, 39, 41, 2] := by
  decide +kernel

theorem lineOffsets_32 : lineOffsets 32 =
    #v[12, 11, 21, 14, 28, 20, 3, 13, 29, 1, 6, 25, 8, 18, 27, 4, 10, 15, 24, 30, 23, 7, 9, 2] := by
  decide +kernel

/-- `ethash_keccakf1600` is Keccak-f[1600]. -/
theorem ethash_keccakf1600_eq (state : State 64) : ethash_keccakf1600 state = permute 24 state := by
  rw [ethash_keccakf1600, ← lineOffsets_64]
  exact unrolled_eq (by decide) (by decide +kernel) state

/-- `ethash_keccakf800` is Keccak-f[800]. -/
theorem ethash_keccakf800_eq (state : State 32) : ethash_keccakf800 state = permute 22 state := by
  rw [ethash_keccakf800, ← lineOffsets_32]
  exact unrolled_eq (by decide) (by decide +kernel) state

/-! ## The sponge -/

/-- `load_le(data)`. -/
def load_le (data : Bytes) : BitVec 64 := readWord data 0

/-- The last block: whole words, then the bytes that are left with a one bit behind them. -/
def lastWords (state : State 64) (i : Nat) (data : Bytes) : State 64 :=
  if 0 < 8 ∧ 8 ≤ data.length then
    lastWords (setWord state i (word state i ^^^ load_le data)) (i + 1) (data.drop 8)
  else setWord state i (word state i ^^^ BitVec.ofNat 64 (leNat (data ++ [1])))
termination_by data.length
decreasing_by exact drop_lt ‹_›

/-- `keccak(out, bits, data, size)` up to the output. -/
def keccakState (blockSize : Nat) (state : State 64) (data : Bytes) : State 64 :=
  if 0 < blockSize ∧ blockSize ≤ data.length then
    keccakState blockSize (ethash_keccakf1600 (xorWords state (blockSize / 8) data))
      (data.drop blockSize)
  else
    let state := lastWords state 0 data
    ethash_keccakf1600 (setWord state (blockSize / 8 - 1)
      (word state (blockSize / 8 - 1) ^^^ 0x8000000000000000))
termination_by data.length
decreasing_by exact drop_lt ‹_›

/-- `keccak(out, bits, data, size)`: the first words of the state. -/
def keccakBits (bits : Nat) (data : Bytes) : List (BitVec 64) :=
  (keccakState ((1600 - bits * 2) / 8) (Vector.replicate 25 0) data).toList.take (bits / 8 / 8)

/-- `ethash_keccak256`, as the hash lies in memory. -/
def ethash_keccak256 (data : Bytes) : Bytes := (keccakBits 256 data).flatMap fun l => leBytes 8 l.toNat

def ethash_keccak512 (data : Bytes) : Bytes := (keccakBits 512 data).flatMap fun l => leBytes 8 l.toNat

theorem readWord_of_le {data : Bytes} {k : Nat} (h : data.length ≤ 8 * k) : readWord data k = 0#64 := by
  rw [readWord, List.drop_of_length_le h]
  rfl

/-- The words of a list go on behind its first eight bytes. -/
theorem readWord_drop (data : Bytes) (k : Nat) : readWord (data.drop 8) k = readWord data (k + 1) := by
  rw [readWord, readWord, List.drop_drop]
  congr 4
  omega

theorem word_lastWords (state : State 64) {i : Nat} {data : Bytes} (hi : i + data.length / 8 < 25)
    {k : Nat} (hk : k < 25) : word (lastWords state i data) k =
      if i ≤ k then word state k ^^^ readWord (data ++ [1]) (k - i) else word state k := by
  induction hlen : data.length using Nat.strongRecOn generalizing state i data with
  | ind n ih =>
    subst hlen
    by_cases hfull : 8 ≤ data.length
    · have hdrop : (data.drop 8).length = data.length - 8 := List.length_drop
      have hload : load_le data = readWord (data ++ [1]) 0 := by
        rw [load_le, readWord, readWord, Nat.mul_zero, List.drop_zero, List.drop_zero,
          List.take_append_of_le_length hfull]
      have happ : (data ++ [1]).drop 8 = data.drop 8 ++ [1] := List.drop_append_of_le_length hfull
      rw [lastWords, if_pos ⟨by decide, hfull⟩, ih (data.length - 8) (by omega) _ (by omega) hdrop,
        word_setWord _ (by omega) hk, hload]
      rcases Nat.lt_trichotomy i k with hlt | rfl | hgt
      · obtain ⟨m, rfl⟩ := Nat.exists_eq_add_of_lt hlt
        have hm : i + m + 1 - (i + 1) = m := by omega
        have hm' : i + m + 1 - i = m + 1 := by omega
        rw [if_pos (by omega), if_neg (by omega), if_pos (by omega), hm, hm', ← happ, readWord_drop]
      · rw [if_neg (by omega), if_pos rfl, if_pos (Nat.le_refl _), Nat.sub_self]
      · rw [if_neg (by omega), if_neg (by omega), if_neg (by omega)]
    · have hshort : (data ++ [1]).length ≤ 8 := by
        rw [List.length_append, List.length_singleton]
        omega
      rw [lastWords, if_neg fun h => hfull h.2, word_setWord _ (by omega) hk]
      rcases Nat.lt_trichotomy i k with hlt | rfl | hgt
      · rw [if_neg (by omega), if_pos (by omega), readWord_of_le (by omega), BitVec.xor_zero]
      · rw [if_pos rfl, if_pos (Nat.le_refl _), Nat.sub_self, readWord, Nat.mul_zero, List.drop_zero,
          List.take_of_length_le hshort]
      · rw [if_neg (by omega), if_neg (by omega)]

theorem word_addBlock (state : State 64) (block : Bytes) {k : Nat} (hk : k < 25) :
    word (addBlock state block) k = word state k ^^^ readWord block k := by
  rw [word_eq _ hk, addBlock, Vector.getElem_ofFn]
  have hget : state.get ⟨k, hk⟩ = word state k := (word_eq state hk).symm
  simp only [hget]
  split
  case isTrue h => rfl
  case isFalse h => rw [readWord_of_le (Nat.le_of_not_lt h), BitVec.xor_zero]

theorem leNat_zeros (n : Nat) : leNat (List.replicate n 0) = 0 := by
  induction n with
  | zero => rfl
  | succ n ih => rw [List.replicate_succ, leNat_cons, ih]; rfl

/-- Zeros behind the bytes do not change the words. -/
theorem readWord_append_zeros (data : Bytes) (n k : Nat) :
    readWord (data ++ List.replicate n 0) k = readWord data k := by
  rw [readWord, readWord, List.drop_append, List.drop_replicate, List.take_append,
    List.take_replicate, leNat_append, leNat_zeros, Nat.mul_zero, Nat.add_zero]

theorem add_two_pow_eq_xor {y n : Nat} (h : y < 2 ^ n) : 2 ^ n + y = y ^^^ 2 ^ n := by
  refine Nat.eq_of_testBit_eq fun j => ?_
  rw [Nat.testBit_xor, Nat.testBit_two_pow]
  rcases Nat.lt_trichotomy j n with hlt | rfl | hgt
  · rw [Nat.testBit_two_pow_add_gt hlt, decide_eq_false (Nat.ne_of_gt hlt), Bool.xor_false]
  · rw [Nat.testBit_two_pow_add_eq, decide_eq_true rfl, Bool.xor_true]
  · have hpow : 2 ^ n * 2 ≤ 2 ^ j := by
      rw [← pow_succ]
      exact Nat.pow_le_pow_right (by decide) hgt
    rw [Nat.testBit_lt_two_pow (by omega), Nat.testBit_lt_two_pow (by omega),
      decide_eq_false (Nat.ne_of_lt hgt)]
    rfl

theorem toNat_or_top {b : UInt8} (hb : b.toNat < 128) : (b ||| 0x80).toNat = b.toNat + 128 := by
  revert hb
  exact forall_byte (p := fun b => b.toNat < 128 → (b ||| 0x80).toNat = b.toNat + 128)
    (by decide +kernel) b

/-- The top bit of the last byte is the top bit of the last word. -/
theorem readWord_top {bs : Bytes} {b : UInt8} {m : Nat} (hlen : bs.length = 8 * m + 7)
    (hb : b.toNat < 128) (k : Nat) : readWord (bs ++ [b ||| 0x80]) k =
      if k = m then readWord (bs ++ [b]) k ^^^ 0x8000000000000000 else readWord (bs ++ [b]) k := by
  have hlength : ∀ c : UInt8, (bs ++ [c]).length = 8 * m + 8 := fun c => by
    rw [List.length_append, hlen, List.length_singleton]
  rcases Nat.lt_trichotomy k m with hlt | rfl | hgt
  · have hhead : ∀ c : UInt8, readWord (bs ++ [c]) k = readWord bs k := fun c => by
      rw [readWord, readWord, List.drop_append_of_le_length (by omega),
        List.take_append_of_le_length (by rw [List.length_drop]; omega)]
    rw [if_neg (by omega), hhead, hhead]
  · have hbytes : (bs.drop (8 * k)).length = 7 := by
      rw [List.length_drop]
      omega
    have hword : ∀ c : UInt8, readWord (bs ++ [c]) k =
        BitVec.ofNat 64 (leNat (bs.drop (8 * k)) + 256 ^ 7 * c.toNat) := fun c => by
      rw [readWord, List.drop_append_of_le_length (by omega), List.take_of_length_le (by
        rw [List.length_append, hbytes, List.length_singleton]), leNat_append, hbytes]
      rfl
    have hlow := leNat_lt (bs.drop (8 * k))
    rw [hbytes] at hlow
    have hsmall : leNat (bs.drop (8 * k)) + 256 ^ 7 * b.toNat < 2 ^ 63 := by omega
    rw [if_pos rfl, hword, hword, toNat_or_top hb]
    refine BitVec.eq_of_toNat_eq ?_
    rw [BitVec.toNat_xor, BitVec.toNat_ofNat, BitVec.toNat_ofNat,
      Nat.mod_eq_of_lt (hsmall.trans (by decide)), Nat.mod_eq_of_lt (by omega)]
    exact (by omega : _ = 2 ^ 63 + (leNat (bs.drop (8 * k)) + 256 ^ 7 * b.toNat)).trans
      (add_two_pow_eq_xor hsmall)
  · rw [if_neg (by omega), readWord_of_le (by rw [hlength]; omega),
      readWord_of_le (by rw [hlength]; omega)]

/-- The padded block with its last byte set apart. -/
theorem padded_eq {rate : Nat} {data : Bytes} (h : data.length < rate) :
    ∃ (bs : Bytes) (b : UInt8), b.toNat < 128 ∧ bs.length = rate - 1 ∧
      padded rate data = bs ++ [b ||| 0x80] ∧
      bs ++ [b] = data ++ [1] ++ List.replicate (rate - data.length - 1) 0 := by
  rw [padded, Nat.mod_eq_of_lt h, padding]
  by_cases hroom : rate - data.length = 1
  · refine ⟨data, 1, by decide, by omega, ?_, ?_⟩
    · rw [if_pos hroom]
      rfl
    · rw [hroom]
      exact (List.append_nil _).symm
  · obtain ⟨n, hn⟩ : ∃ n, rate - data.length = n + 2 := ⟨rate - data.length - 2, by omega⟩
    refine ⟨data ++ 1 :: List.replicate n 0, 0, by decide, ?_, ?_, ?_⟩
    · rw [List.length_append, List.length_cons, List.length_replicate]
      omega
    · rw [if_neg hroom, hn, Nat.add_sub_cancel, List.append_assoc]
      rfl
    · rw [hn, Nat.add_succ_sub_one, List.replicate_succ', List.append_assoc, List.append_assoc]
      rfl

/-- The last block, word by word, is the padded block. -/
theorem lastBlock_eq {rate : Nat} (hrate : rate ≤ 200) (h8 : rate % 8 = 0) (state : State 64)
    {data : Bytes} (h : data.length < rate) :
    setWord (lastWords state 0 data) (rate / 8 - 1)
      (word (lastWords state 0 data) (rate / 8 - 1) ^^^ 0x8000000000000000) =
      addBlock state (padded rate data) := by
  obtain ⟨bs, b, hb, hlen, hpadded, hbase⟩ := padded_eq h
  have htop := readWord_top (m := rate / 8 - 1) (by omega : bs.length = 8 * (rate / 8 - 1) + 7) hb
  have hwords : ∀ k < 25, word (lastWords state 0 data) k = word state k ^^^ readWord (bs ++ [b]) k := by
    intro k hk
    rw [word_lastWords state (by omega) hk, if_pos (Nat.zero_le k), Nat.sub_zero, hbase,
      readWord_append_zeros]
  refine ext_word fun k hk => ?_
  rw [word_setWord _ (by omega) hk, word_addBlock state _ hk, hpadded, htop]
  by_cases hlast : rate / 8 - 1 = k
  · rw [if_pos hlast, if_pos hlast.symm, hlast, hwords k hk, BitVec.xor_assoc]
  · rw [if_neg hlast, if_neg fun h => hlast h.symm, hwords k hk]

theorem keccakState_eq {rate : Nat} (hpos : 0 < rate) (hrate : rate ≤ 200) (h8 : rate % 8 = 0)
    (state : State 64) (data : Bytes) :
    keccakState rate state data =
      (absorb rate (fun A block => permute 24 (addBlock A block)) state (padded rate data)).1 := by
  induction hk : data.length using Nat.strongRecOn generalizing state data with
  | ind k ih =>
    by_cases hlen : rate ≤ data.length
    · obtain ⟨block, rest, rfl, hb⟩ := exists_block hlen
      have hlt : rest.length < k := by
        rw [← hk, List.length_append]
        omega
      rw [keccakState, if_pos ⟨hpos, hlen⟩, List.drop_left' hb, xorWords_eq hrate h8 state hb,
        ethash_keccakf1600_eq, ih _ hlt _ rest rfl, padded_block hb, absorb_block hpos hb]
    · have hlt : data.length < rate := Nat.lt_of_not_le hlen
      rw [keccakState, if_neg fun h => hlen h.2]
      simp only [lastBlock_eq hrate h8 state hlt, ethash_keccakf1600_eq]
      rw [← List.append_nil (padded rate data), absorb_block hpos (padded_length hlt),
        absorb_of_lt hpos, List.append_nil]

/-- The words of the output are the bytes of the hash. -/
theorem flatMap_take (words : List (BitVec 64)) (n : Nat) :
    (words.take n).flatMap (fun l => leBytes 8 l.toNat) =
      (words.flatMap fun l => leBytes 8 l.toNat).take (8 * n) := by
  induction n generalizing words with
  | zero => rw [List.take_zero, Nat.mul_zero, List.take_zero, List.flatMap_nil]
  | succ n ih =>
    cases words with
    | nil => rw [List.take_nil, List.flatMap_nil, List.take_nil]
    | cons l words =>
      have hlen : (leBytes 8 l.toNat).length = 8 := leBytes_length _ _
      rw [List.take_succ_cons, List.flatMap_cons, List.flatMap_cons, ih, List.take_append, hlen,
        List.take_of_length_le (by omega : (leBytes 8 l.toNat).length ≤ 8 * (n + 1)), Nat.mul_succ,
        Nat.add_sub_cancel]

/-- The two Keccak implementations of the pool agree with each other and with the standard. -/
theorem keccak256_eq (data : Bytes) :
    ethash_keccak256 data = hash 32 data ∧ cn_fast_hash data = hash 32 data := by
  refine ⟨?_, cn_fast_hash_eq data⟩
  rw [ethash_keccak256, keccakBits, keccakState_eq (by decide) (by decide) (by decide), flatMap_take]
  rfl

theorem keccak512_eq (data : Bytes) : ethash_keccak512 data = hash 64 data := by
  rw [ethash_keccak512, keccakBits, keccakState_eq (by decide) (by decide) (by decide), flatMap_take]
  rfl

/-- Bytes in memory as 32-bit words. -/
def words32 (n : Nat) (bs : Bytes) : Vector UInt32 n :=
  Vector.ofFn fun i => UInt32.ofNat (leNat ((bs.drop (4 * i)).take 4))

/-- The functions that the rest of ethash calls. -/
def ethashKeccak : Keccak where
  keccak256 h := words32 8 (ethash_keccak256 h.bytes)
  keccak512Seed h := words32 16 (ethash_keccak512 h.bytes)
  keccak512 h := words32 16 (ethash_keccak512 (h.toList.flatMap fun w => leBytes 4 w.toNat))
  keccakf800 state := (ethash_keccakf800 (state.map UInt32.toBitVec)).map UInt32.ofBitVec

end SickPool.Ethash
