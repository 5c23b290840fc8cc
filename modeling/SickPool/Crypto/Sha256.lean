import Mathlib.Analysis.SpecialFunctions.Pow.NthRootLemmas
import Mathlib.Data.Nat.Prime.Basic
import SickPool.Library.Absorb
import SickPool.Library.Bytes

/-!
# SHA-256

`CSHA256` of `verushash/sha256.cpp` and `HashWrapper::SHA256d` on the one static object. The 64
lines of `Transform` keep the eight working variables and sixteen words of the schedule in place:
from line to line the names move by one. The second half of the file states SHA-256 as the
standard does and shows that an object gives it, whatever it was used for before and in however
many pieces the data comes.
-/
namespace SickPool.Crypto.Sha256

open SickPool.Library SickPool.Library.Bytes SickPool.Library.Absorb

/-! ## The code -/

def Ch (x y z : UInt32) : UInt32 := z ^^^ (x &&& (y ^^^ z))

def Maj (x y z : UInt32) : UInt32 := (x &&& y) ||| (z &&& (x ||| y))

def Sigma0 (x : UInt32) : UInt32 :=
  (x >>> 2 ||| x <<< 30) ^^^ (x >>> 13 ||| x <<< 19) ^^^ (x >>> 22 ||| x <<< 10)

def Sigma1 (x : UInt32) : UInt32 :=
  (x >>> 6 ||| x <<< 26) ^^^ (x >>> 11 ||| x <<< 21) ^^^ (x >>> 25 ||| x <<< 7)

def sigma0 (x : UInt32) : UInt32 := (x >>> 7 ||| x <<< 25) ^^^ (x >>> 18 ||| x <<< 14) ^^^ x >>> 3

def sigma1 (x : UInt32) : UInt32 := (x >>> 17 ||| x <<< 15) ^^^ (x >>> 19 ||| x <<< 13) ^^^ x >>> 10

/-- The constants of the 64 lines of `Transform`. -/
def roundConstants : Vector UInt32 64 := #v[
  0x428a2f98, 0x71374491, 0xb5c0fbcf, 0xe9b5dba5, 0x3956c25b, 0x59f111f1,
  0x923f82a4, 0xab1c5ed5, 0xd807aa98, 0x12835b01, 0x243185be, 0x550c7dc3,
  0x72be5d74, 0x80deb1fe, 0x9bdc06a7, 0xc19bf174, 0xe49b69c1, 0xefbe4786,
  0x0fc19dc6, 0x240ca1cc, 0x2de92c6f, 0x4a7484aa, 0x5cb0a9dc, 0x76f988da,
  0x983e5152, 0xa831c66d, 0xb00327c8, 0xbf597fc7, 0xc6e00bf3, 0xd5a79147,
  0x06ca6351, 0x14292967, 0x27b70a85, 0x2e1b2138, 0x4d2c6dfc, 0x53380d13,
  0x650a7354, 0x766a0abb, 0x81c2c92e, 0x92722c85, 0xa2bfe8a1, 0xa81a664b,
  0xc24b8b70, 0xc76c51a3, 0xd192e819, 0xd6990624, 0xf40e3585, 0x106aa070,
  0x19a4c116, 0x1e376c08, 0x2748774c, 0x34b0bcb5, 0x391c0cb3, 0x4ed8aa4a,
  0x5b9cca4f, 0x682e6ff3, 0x748f82ee, 0x78a5636f, 0x84c87814, 0x8cc70208,
  0x90befffa, 0xa4506ceb, 0xbef9a3f7, 0xc67178f2]

/-- `Initialize`. -/
def initialState : Vector UInt32 8 := #v[0x6a09e667, 0xbb67ae85, 0x3c6ef372, 0xa54ff53a, 0x510e527f,
  0x9b05688c, 0x1f83d9ab, 0x5be0cd19]

/-- `Round` with the names of the `i`-th line: what is the `n`-th argument in the first line is
`n - i` there. -/
def Round (i : Fin 8) (v : Vector UInt32 8) (k w : UInt32) : Vector UInt32 8 :=
  let arg := fun n : Fin 8 => v.get (n - i)
  let t1 := arg 7 + Sigma1 (arg 4) + Ch (arg 4) (arg 5) (arg 6) + k + w
  let t2 := Sigma0 (arg 0) + Maj (arg 0) (arg 1) (arg 2)
  (v.set (3 - i : Fin 8) (arg 3 + t1)).set (7 - i : Fin 8) (t1 + t2)

/-- `ReadBE32(chunk + pos)`. -/
def readBE32 (chunk : Bytes) (pos : Nat) : UInt32 :=
  UInt32.ofNat (beNat ((chunk.drop pos).take 4))

/-- The last argument of the `i`-th line: a word of the chunk, or the word that is replaced with
what it is replaced by. -/
def scheduleWord (chunk : Bytes) (i : Nat) (w : Vector UInt32 16) : UInt32 :=
  let at' := fun n : Nat => w.get (Fin.ofNat 16 n)
  if i < 16 then readBE32 chunk (4 * i)
  else at' i + (sigma1 (at' (i + 14)) + at' (i + 9) + sigma0 (at' (i + 1)))

/-- One line of `Transform`. The last two do not keep their word, which no line reads. -/
def transformLine (chunk : Bytes) (st : Vector UInt32 8 × Vector UInt32 16) (i : Nat) :
    Vector UInt32 8 × Vector UInt32 16 :=
  let word := scheduleWord chunk i st.2
  (Round (Fin.ofNat 8 i) st.1 (roundConstants.get (Fin.ofNat 64 i)) word,
    st.2.set (Fin.ofNat 16 i) word)

def Transform (s : Vector UInt32 8) (chunk : Bytes) : Vector UInt32 8 :=
  s.zipWith (· + ·) ((List.range 64).foldl (transformLine chunk) (s, Vector.replicate 16 0)).1

/-- A `CSHA256`: `bytes` counts what was written, and `buf` starts with what does not fill a
chunk. -/
structure CSHA256 where
  s : Vector UInt32 8
  buf : Vector UInt8 64
  bytes : UInt64

def CSHA256.reset (c : CSHA256) : CSHA256 := { c with s := initialState, bytes := 0 }

/-- `memcpy(buf + pos, src, size)`. -/
def copyInto (buf : Vector UInt8 64) (pos : Nat) (src : Bytes) : Vector UInt8 64 :=
  Vector.ofFn fun i => if pos ≤ i ∧ i < pos + src.length then src.getD (i - pos) 0 else buf.get i

/-- The part of `Write` behind the first chunk: full chunks from the source, then the rest to
`buf + bufsize`. -/
def CSHA256.writeChunks (c : CSHA256) (bufsize : Nat) (data : Bytes) : CSHA256 :=
  if 0 < 64 ∧ 64 ≤ data.length then
    CSHA256.writeChunks { c with s := Transform c.s (data.take 64), bytes := c.bytes + 64 } bufsize
      (data.drop 64)
  else
    { c with
      buf := copyInto c.buf bufsize data
      bytes := c.bytes + UInt64.ofNat data.length }
termination_by data.length
decreasing_by exact drop_lt ‹_›

/-- `Write(data, len)`. -/
def CSHA256.write (c : CSHA256) (data : Bytes) : CSHA256 :=
  let bufsize := (c.bytes % 64).toNat
  if bufsize ≠ 0 ∧ 64 ≤ bufsize + data.length then
    let buf := copyInto c.buf bufsize (data.take (64 - bufsize))
    CSHA256.writeChunks
      { s := Transform c.s buf.toList, buf, bytes := c.bytes + UInt64.ofNat (64 - bufsize) } 0
      (data.drop (64 - bufsize))
  else c.writeChunks bufsize data

def writeBE (width n : Nat) : Bytes := (leBytes width n).reverse

def CSHA256.finalizeNoPadding (c : CSHA256) : Bytes :=
  c.s.toList.flatMap fun word => writeBE 4 word.toNat

/-- `Finalize(hash)`: the hash, and the object as it is left. -/
def CSHA256.finalize (c : CSHA256) : Bytes × CSHA256 :=
  let sizedesc := writeBE 8 (c.bytes <<< 3).toNat
  let c := c.write (0x80 :: List.replicate ((119 - (c.bytes % 64).toNat) % 64) 0)
  let c := c.write sizedesc
  (c.finalizeNoPadding, c)

/-- `HashWrapper::SHA256d` on the static object. -/
def SHA256d (c : CSHA256) (data : Bytes) : Bytes × CSHA256 :=
  let first := (c.reset.write data).finalize
  (first.2.reset.write first.1).finalize

/-! ## The standard -/

namespace Standard

def rotr (n : Nat) (x : UInt32) : UInt32 := ⟨x.toBitVec.rotateRight n⟩

def Ch (x y z : UInt32) : UInt32 := (x &&& y) ^^^ (~~~x &&& z)

def Maj (x y z : UInt32) : UInt32 := (x &&& y) ^^^ (x &&& z) ^^^ (y &&& z)

def Sigma0 (x : UInt32) : UInt32 := rotr 2 x ^^^ rotr 13 x ^^^ rotr 22 x

def Sigma1 (x : UInt32) : UInt32 := rotr 6 x ^^^ rotr 11 x ^^^ rotr 25 x

def sigma0 (x : UInt32) : UInt32 := rotr 7 x ^^^ rotr 18 x ^^^ x >>> 3

def sigma1 (x : UInt32) : UInt32 := rotr 17 x ^^^ rotr 19 x ^^^ x >>> 10

/-- The first 32 bits of the fractional part of the `k`-th root of `p`. -/
def rootBits (k p : Nat) : UInt32 := UInt32.ofNat (Nat.nthRoot k (p * 2 ^ (32 * k)))

/-- The first 64 primes. -/
def primes : List Nat := (List.range 312).filter (fun p => decide p.Prime)

/-- The round constants: the cube roots of the first 64 primes. -/
def K (t : Nat) : UInt32 := rootBits 3 (primes.getD t 0)

/-- The initial hash value: the square roots of the first eight primes. -/
def H0 : Vector UInt32 8 := Vector.ofFn fun i => rootBits 2 (primes.getD i 0)

/-- The message schedule of a block. -/
def schedule (block : Bytes) (t : Nat) : UInt32 :=
  if t < 16 then readBE32 block (4 * t)
  else sigma1 (schedule block (t - 2)) + schedule block (t - 7) + sigma0 (schedule block (t - 15)) +
    schedule block (t - 16)

/-- One step of the working variables `a` to `h`. -/
def step (v : Vector UInt32 8) (k w : UInt32) : Vector UInt32 8 :=
  let t1 := v[7] + Sigma1 v[4] + Ch v[4] v[5] v[6] + k + w
  let t2 := Sigma0 v[0] + Maj v[0] v[1] v[2]
  #v[t1 + t2, v[0], v[1], v[2], v[3] + t1, v[4], v[5], v[6]]

/-- The working variables after `n` steps. -/
def working (H : Vector UInt32 8) (block : Bytes) (n : Nat) : Vector UInt32 8 :=
  (List.range n).foldl (fun v t => step v (K t) (schedule block t)) H

def compress (H : Vector UInt32 8) (block : Bytes) : Vector UInt32 8 :=
  H.zipWith (· + ·) (working H block 64)

/-- The number of zero bytes of the padding: the least one with which the padded message is a
multiple of 64 bytes long. -/
def zeros (len : Nat) : Nat := (119 - len % 64) % 64

/-- The message with the padding: a one bit, zeros, and the length in bits. -/
def padded (data : Bytes) : Bytes :=
  data ++ 0x80 :: List.replicate (zeros data.length) 0 ++ writeBE 8 (8 * data.length)

/-- The padded message fills its last block. -/
theorem padded_length (data : Bytes) : (padded data).length % 64 = 0 := by
  have hlength : (writeBE 8 (8 * data.length)).length = 8 := by
    rw [writeBE, List.length_reverse, leBytes_length]
  rw [padded, List.length_append, List.length_append, List.length_cons, List.length_replicate,
    hlength, zeros]
  omega

def sha256 (data : Bytes) : Bytes :=
  (absorb 64 compress H0 (padded data)).1.toList.flatMap fun word => writeBE 4 word.toNat

end Standard

/-! ## The rounds -/

theorem Sigma0_eq (x : UInt32) : Sigma0 x = Standard.Sigma0 x := rfl

theorem Sigma1_eq (x : UInt32) : Sigma1 x = Standard.Sigma1 x := rfl

theorem sigma0_eq (x : UInt32) : sigma0 x = Standard.sigma0 x := rfl

theorem sigma1_eq (x : UInt32) : sigma1 x = Standard.sigma1 x := rfl

theorem Ch_eq (x y z : UInt32) : Ch x y z = Standard.Ch x y z := by
  refine UInt32.toBitVec_inj.mp (BitVec.eq_of_getElem_eq fun i hi => ?_)
  simp only [Ch, Standard.Ch, UInt32.toBitVec_xor, UInt32.toBitVec_and, UInt32.toBitVec_not,
    BitVec.getElem_xor, BitVec.getElem_and, BitVec.getElem_not]
  cases x.toBitVec[i] <;> cases y.toBitVec[i] <;> cases z.toBitVec[i] <;> rfl

theorem Maj_eq (x y z : UInt32) : Maj x y z = Standard.Maj x y z := by
  refine UInt32.toBitVec_inj.mp (BitVec.eq_of_getElem_eq fun i hi => ?_)
  simp only [Maj, Standard.Maj, UInt32.toBitVec_xor, UInt32.toBitVec_and, UInt32.toBitVec_or,
    BitVec.getElem_xor, BitVec.getElem_and, BitVec.getElem_or]
  cases x.toBitVec[i] <;> cases y.toBitVec[i] <;> cases z.toBitVec[i] <;> rfl

theorem prime_iff_small {p : Nat} (hp : p < 18 * 18) :
    p.Prime ↔ 2 ≤ p ∧ ∀ d < 18, 2 ≤ d → d * d ≤ p → ¬d ∣ p := by
  rw [Nat.prime_def_le_sqrt]
  refine and_congr_right fun _ => ⟨fun h d _ hd hle => h d hd (Nat.le_sqrt.mpr hle), ?_⟩
  intro h d hd hle
  have hsq := Nat.le_sqrt.mp hle
  exact h d (Nat.mul_self_lt_mul_self_iff.mp (hsq.trans_lt hp)) hd hsq

theorem primes_eq : Standard.primes =
    [2, 3, 5, 7, 11, 13, 17, 19, 23, 29, 31, 37, 41, 43, 47, 53, 59, 61, 67, 71, 73, 79, 83, 89,
    97, 101, 103, 107, 109, 113, 127, 131, 137, 139, 149, 151, 157, 163, 167, 173, 179, 181, 191,
    193, 197, 199, 211, 223, 227, 229, 233, 239, 241, 251, 257, 263, 269, 271, 277, 281, 283, 293,
    307, 311] := by
  have hsmall : Standard.primes = (List.range 312).filter
      (fun p => decide (2 ≤ p ∧ ∀ d < 18, 2 ≤ d → d * d ≤ p → ¬d ∣ p)) := by
    refine List.filter_congr fun p hp => decide_eq_decide.mpr (prime_iff_small ?_)
    exact (List.mem_range.mp hp).trans (by decide)
  rw [hsmall]
  decide +kernel

/-- The bits `c` behind the whole part `r` of a root. -/
theorem rootBits_eq {k p r : Nat} {c : UInt32}
    (h : (r * 2 ^ 32 + c.toNat) ^ k ≤ p * 2 ^ (32 * k) ∧
      p * 2 ^ (32 * k) < (r * 2 ^ 32 + c.toNat + 1) ^ k) : Standard.rootBits k p = c := by
  rw [Standard.rootBits, Nat.nthRoot_eq_of_le_of_lt h.1 h.2]
  refine UInt32.toNat_inj.mp ?_
  rw [UInt32.toNat_ofNat', Nat.mul_add_mod_self_right, Nat.mod_eq_of_lt c.toNat_lt]

theorem roundConstants_eq (i : Fin 64) : roundConstants.get i = Standard.K i := by
  rw [Standard.K, primes_eq]
  refine (rootBits_eq (r := Nat.nthRoot 3 (Standard.primes.getD i 0)) ?_).symm
  rw [primes_eq]
  revert i
  decide +kernel

theorem initialState_eq : initialState = Standard.H0 := by
  refine Vector.ext fun i hi => ?_
  rw [Standard.H0, Vector.getElem_ofFn]
  refine (rootBits_eq (r := Nat.nthRoot 2 (Standard.primes.getD i 0)) ?_).symm
  rw [primes_eq]
  revert i
  decide +kernel

theorem get_set {n : Nat} (v : Vector UInt32 n) (i j : Fin n) (x : UInt32) :
    (v.set i x).get j = if i = j then x else v.get j := by
  have h : (v.set i x)[j.val] = if i.val = j.val then x else v[j.val] :=
    Vector.getElem_set i.isLt j.isLt
  simp only [Fin.ext_iff]
  exact h

/-- A line of the code under the moved names is a step of the standard. -/
theorem Round_get {i : Fin 8} {v u : Vector UInt32 8} (h : ∀ n, v.get (n - i) = u.get n)
    (k w : UInt32) (n : Fin 8) : (Round i v k w).get (n - (i + 1)) = (Standard.step u k w).get n := by
  have hmoved : ∀ i n : Fin 8, n - (i + 1) = n - 1 - i := by decide
  have hlast : ∀ i n : Fin 8, 7 - i = n - 1 - i ↔ n = 0 := by decide
  have hthird : ∀ i n : Fin 8, 3 - i = n - 1 - i ↔ n = 4 := by decide
  rw [Round, get_set, get_set, hmoved]
  simp only [hlast, hthird, h, Sigma0_eq, Sigma1_eq, Ch_eq, Maj_eq]
  match n with
  | 0 => rfl
  | 1 => rfl
  | 2 => rfl
  | 3 => rfl
  | 4 => rfl
  | 5 => rfl
  | 6 => rfl
  | 7 => rfl

/-- Before line `i`: the working variables under their names there, and the last sixteen words of
the schedule. -/
structure Lines (H : Vector UInt32 8) (chunk : Bytes) (i : Nat)
    (st : Vector UInt32 8 × Vector UInt32 16) : Prop where
  working : ∀ n, st.1.get (n - Fin.ofNat 8 i) = (Standard.working H chunk i).get n
  words : ∀ t, t < i → i ≤ t + 16 → st.2.get (Fin.ofNat 16 t) = Standard.schedule chunk t

theorem Lines.scheduleWord {H : Vector UInt32 8} {chunk : Bytes} {i : Nat}
    {st : Vector UInt32 8 × Vector UInt32 16} (h : Lines H chunk i st) :
    scheduleWord chunk i st.2 = Standard.schedule chunk i := by
  rw [Sha256.scheduleWord, Standard.schedule]
  by_cases hi : i < 16
  · rw [if_pos hi, if_pos hi]
  have hback : ∀ a b : Nat, a + b = 16 → Fin.ofNat 16 (i + a) = Fin.ofNat 16 (i - b) := by
    intro a b hab
    refine Fin.ext ?_
    show (i + a) % 16 = (i - b) % 16
    omega
  have hwords : ∀ b : Nat, 0 < b → b ≤ 16 →
      st.2.get (Fin.ofNat 16 (i - b)) = Standard.schedule chunk (i - b) :=
    fun b hb hb' => h.words (i - b) (by omega) (by omega)
  have hself : st.2.get (Fin.ofNat 16 i) = Standard.schedule chunk (i - 16) := by
    rw [← hwords 16 (by decide) (by decide), ← hback 0 16 rfl, Nat.add_zero]
  simp only [if_neg hi, hself, hback 14 2 rfl, hback 9 7 rfl, hback 1 15 rfl, hwords,
    sigma0_eq, sigma1_eq, Nat.reduceLT, Nat.reduceLeDiff]
  exact UInt32.add_comm _ _

theorem Standard.working_succ (H : Vector UInt32 8) (block : Bytes) (n : Nat) :
    Standard.working H block (n + 1) =
      Standard.step (Standard.working H block n) (Standard.K n) (Standard.schedule block n) := by
  rw [Standard.working, List.range_succ, List.foldl_append]
  rfl

theorem Lines.next {H : Vector UInt32 8} {chunk : Bytes} {i : Nat}
    {st : Vector UInt32 8 × Vector UInt32 16} (h : Lines H chunk i st) (hi : i < 64) :
    Lines H chunk (i + 1) (transformLine chunk st i) := by
  rw [transformLine, h.scheduleWord]
  constructor
  · intro n
    have hname : Fin.ofNat 8 (i + 1) = Fin.ofNat 8 i + 1 := Fin.ext (Nat.add_mod i 1 8)
    have hK : roundConstants.get (Fin.ofNat 64 i) = Standard.K i := by
      rw [roundConstants_eq, Fin.val_ofNat, Nat.mod_eq_of_lt hi]
    rw [Standard.working_succ, hname, hK]
    exact Round_get h.working _ _ n
  · intro t ht hnear
    rw [get_set]
    split
    case isTrue hsame =>
      have hmod : i % 16 = t % 16 := congrArg Fin.val hsame
      rw [show t = i by omega]
    case isFalse hne =>
      refine h.words t (Nat.lt_of_le_of_ne (Nat.le_of_lt_succ ht) ?_) (by omega)
      rintro rfl
      exact hne rfl

theorem name_zero : ∀ n : Fin 8, n - Fin.ofNat 8 0 = n := by decide

theorem lines (H : Vector UInt32 8) (chunk : Bytes) {n : Nat} (hn : n ≤ 64) :
    Lines H chunk n ((List.range n).foldl (transformLine chunk) (H, Vector.replicate 16 0)) := by
  induction n with
  | zero => exact ⟨fun n => congrArg H.get (name_zero n), fun t ht => absurd ht (Nat.not_lt_zero t)⟩
  | succ n ih =>
    rw [List.range_succ, List.foldl_append]
    exact (ih (Nat.le_of_succ_le hn)).next hn

/-- In line 64 the names are those of the first line. -/
theorem eq_of_get_line {u v : Vector UInt32 8} (h : ∀ n, u.get (n - Fin.ofNat 8 64) = v.get n) :
    u = v := by
  refine Vector.ext fun i hi => ?_
  have hget := h ⟨i, hi⟩
  rwa [show (⟨i, hi⟩ : Fin 8) - Fin.ofNat 8 64 = ⟨i, hi⟩ from name_zero _] at hget

/-- The 64 lines are the compression function of the standard. -/
theorem Transform_eq (s : Vector UInt32 8) (chunk : Bytes) :
    Transform s chunk = Standard.compress s chunk := by
  have hvars := eq_of_get_line (lines s chunk (Nat.le_refl 64)).working
  rw [Transform, hvars, Standard.compress]

/-! ## The object -/

/-- What lies before the copied bytes stays. -/
theorem getElem_copyInto {buf : Vector UInt8 64} {pos : Nat} {src : Bytes} {i : Nat} (hi : i < 64) :
    (copyInto buf pos src)[i] =
      if pos ≤ i ∧ i < pos + src.length then src.getD (i - pos) 0 else buf[i] :=
  Vector.getElem_ofFn hi

theorem take_copyInto (buf : Vector UInt8 64) {pos : Nat} {src : Bytes}
    (h : pos + src.length ≤ 64) :
    (copyInto buf pos src).toList.take (pos + src.length) = buf.toList.take pos ++ src := by
  have hpos : (buf.toList.take pos).length = pos := by
    rw [List.length_take_of_le]
    rw [Vector.length_toList]
    omega
  refine List.ext_getElem ?_ fun i hi _ => ?_
  · rw [List.length_append, hpos, List.length_take_of_le]
    rwa [Vector.length_toList]
  · rw [List.length_take_of_le (by rwa [Vector.length_toList])] at hi
    rw [List.getElem_take, Vector.getElem_toList, getElem_copyInto]
    by_cases hlt : i < pos
    · rw [if_neg (by omega), List.getElem_append_left (hpos.symm ▸ hlt), List.getElem_take,
        Vector.getElem_toList]
    · rw [if_pos (by omega), List.getElem_append_right (by omega), List.getD_eq_getElem?_getD,
        List.getElem?_eq_getElem (by omega), Option.getD_some]
      simp only [hpos]

/-- What an object holds after `data`. -/
structure CSHA256.Holds (c : CSHA256) (data : Bytes) : Prop where
  state : c.s = (absorb 64 Transform initialState data).1
  bytes : c.bytes = UInt64.ofNat data.length
  buf : c.buf.toList.take (data.length % 64) = (absorb 64 Transform initialState data).2

theorem CSHA256.writeChunks_of_lt {c : CSHA256} {bufsize : Nat} {data : Bytes}
    (h : data.length < 64) : c.writeChunks bufsize data =
      { c with
        buf := copyInto c.buf bufsize data
        bytes := c.bytes + UInt64.ofNat data.length } := by
  rw [CSHA256.writeChunks, if_neg (by omega)]

/-- Chunks and a rest, from an empty buffer. -/
theorem CSHA256.writeChunks_zero (c : CSHA256) (data : Bytes) :
    (c.writeChunks 0 data).s = (absorb 64 Transform c.s data).1 ∧
      (c.writeChunks 0 data).bytes = c.bytes + UInt64.ofNat data.length ∧
      (c.writeChunks 0 data).buf.toList.take (data.length % 64) =
        (absorb 64 Transform c.s data).2 := by
  induction hk : data.length using Nat.strongRecOn generalizing c data with
  | ind k ih =>
    subst hk
    by_cases hlen : 64 ≤ data.length
    · obtain ⟨block, rest, rfl, hb⟩ := exists_block hlen
      have hsum : (block ++ rest).length = 64 + rest.length := by rw [List.length_append, hb]
      have hnext := ih rest.length (by omega)
        { c with s := Transform c.s block, bytes := c.bytes + 64 } rest rfl
      rw [CSHA256.writeChunks, if_pos ⟨by decide, hlen⟩, List.take_left' hb, List.drop_left' hb,
        absorb_block (by decide) hb, hsum, Nat.add_mod_left, UInt64.ofNat_add, ← UInt64.add_assoc]
      exact hnext
    · have hlt : data.length < 64 := Nat.lt_of_not_le hlen
      rw [CSHA256.writeChunks_of_lt hlt, absorb_of_lt hlt, Nat.mod_eq_of_lt hlt]
      refine ⟨rfl, rfl, ?_⟩
      have htake := take_copyInto c.buf (show 0 + data.length ≤ 64 by omega)
      rwa [Nat.zero_add] at htake

theorem CSHA256.Holds.bufsize {c : CSHA256} {data : Bytes} (h : c.Holds data) :
    (c.bytes % 64).toNat = data.length % 64 := by
  rw [h.bytes, UInt64.toNat_mod, UInt64.toNat_ofNat']
  exact Nat.mod_mod_of_dvd _ (by decide)

theorem CSHA256.Holds.rest_length {c : CSHA256} {data : Bytes} (_ : c.Holds data) :
    (absorb 64 Transform initialState data).2.length = data.length % 64 :=
  absorb_rest_length (by decide) initialState data

/-- The buffer is filled, its chunk is taken in, and the rest follows. -/
theorem CSHA256.Holds.write_full {c : CSHA256} {data piece : Bytes} (h : c.Holds data)
    {room : Nat} (hroom : data.length % 64 + room = 64) (hfull : room ≤ piece.length) :
    let buf := copyInto c.buf (data.length % 64) (piece.take room)
    CSHA256.Holds (CSHA256.writeChunks
      { s := Transform c.s buf.toList, buf, bytes := c.bytes + UInt64.ofNat room } 0
      (piece.drop room)) (data ++ piece) := by
  have hlen : (piece.take room).length = room := List.length_take_of_le hfull
  have hbuf := take_copyInto c.buf
    (show data.length % 64 + (piece.take room).length ≤ 64 by omega)
  rw [hlen, h.buf, hroom, List.take_of_length_le (by rw [Vector.length_toList])] at hbuf
  have hblock : ((absorb 64 Transform initialState data).2 ++ piece.take room).length = 64 := by
    rw [List.length_append, h.rest_length, hlen, hroom]
  have hsplit : (absorb 64 Transform initialState data).2 ++ piece =
      ((absorb 64 Transform initialState data).2 ++ piece.take room) ++ piece.drop room := by
    rw [List.append_assoc, List.take_append_drop]
  have habsorb : absorb 64 Transform initialState (data ++ piece) =
      absorb 64 Transform (Transform c.s (copyInto c.buf (data.length % 64)
        (piece.take room)).toList) (piece.drop room) := by
    rw [absorb_append (by decide), hsplit, absorb_block (by decide) hblock, hbuf, h.state]
  obtain ⟨hs, hb, ht⟩ := CSHA256.writeChunks_zero
    { s := Transform c.s (copyInto c.buf (data.length % 64) (piece.take room)).toList
      buf := copyInto c.buf (data.length % 64) (piece.take room)
      bytes := c.bytes + UInt64.ofNat room } (piece.drop room)
  have hmod : (data ++ piece).length % 64 = (piece.drop room).length % 64 := by
    rw [List.length_append, List.length_drop]
    omega
  refine ⟨hs.trans (congrArg Prod.fst habsorb).symm, hb.trans ?_, ?_⟩
  · rw [h.bytes, UInt64.add_assoc, ← UInt64.ofNat_add, ← UInt64.ofNat_add, List.length_append,
      List.length_drop, Nat.add_sub_cancel' hfull]
  · rw [hmod, habsorb]
    exact ht

theorem CSHA256.Holds.write {c : CSHA256} {data : Bytes} (h : c.Holds data) (piece : Bytes) :
    (c.write piece).Holds (data ++ piece) := by
  have hbytes : c.bytes + UInt64.ofNat piece.length = UInt64.ofNat (data ++ piece).length := by
    rw [h.bytes, List.length_append, UInt64.ofNat_add]
  have habsorb := absorb_append (f := Transform) (by decide : 0 < 64) initialState data piece
  rw [CSHA256.write, h.bufsize]
  by_cases hfull : data.length % 64 ≠ 0 ∧ 64 ≤ data.length % 64 + piece.length
  · rw [if_pos hfull]
    exact h.write_full (by omega) (by omega)
  rw [if_neg hfull]
  by_cases hzero : data.length % 64 = 0
  · have hnil : (absorb 64 Transform initialState data).2 = [] :=
      List.eq_nil_of_length_eq_zero (h.rest_length.trans hzero)
    have hmod : (data ++ piece).length % 64 = piece.length % 64 := by
      rw [List.length_append]
      omega
    rw [hnil, List.nil_append, ← h.state] at habsorb
    obtain ⟨hs, hb, ht⟩ := c.writeChunks_zero piece
    rw [hzero]
    exact ⟨by rw [hs, habsorb], hb.trans hbytes, by rw [habsorb, ← ht, hmod]⟩
  · have hlt : data.length % 64 + piece.length < 64 := by omega
    have hmod : (data ++ piece).length % 64 = data.length % 64 + piece.length := by
      rw [List.length_append]
      omega
    have habsorb := habsorb.trans (absorb_of_lt (by rwa [List.length_append, h.rest_length]))
    rw [CSHA256.writeChunks_of_lt (by omega)]
    refine ⟨h.state.trans (congrArg Prod.fst habsorb).symm, hbytes, ?_⟩
    rw [habsorb, ← h.buf, hmod]
    exact take_copyInto _ (Nat.le_of_lt hlt)

theorem CSHA256.reset_holds (c : CSHA256) : c.reset.Holds [] := by
  have hnil : absorb 64 Transform initialState [] = (initialState, []) := absorb_of_lt (by decide)
  exact ⟨by rw [hnil]; rfl, rfl, by rw [hnil]; rfl⟩

theorem CSHA256.writes_hold (c : CSHA256) (pieces : List Bytes) :
    (pieces.foldl CSHA256.write c.reset).Holds pieces.flatten := by
  suffices h : ∀ (c : CSHA256) (data : Bytes), c.Holds data →
      (pieces.foldl CSHA256.write c).Holds (data ++ pieces.flatten) from h _ [] c.reset_holds
  induction pieces with
  | nil => exact fun c data h => (List.append_nil data).symm ▸ h
  | cons piece pieces ih =>
    intro c data h
    rw [List.flatten_cons, ← List.append_assoc]
    exact ih _ _ (h.write piece)

theorem sizedesc_eq {c : CSHA256} {data : Bytes} (h : c.Holds data) :
    writeBE 8 (c.bytes <<< 3).toNat = writeBE 8 (8 * data.length) := by
  have hbits : (c.bytes <<< 3).toNat = 8 * data.length % 256 ^ 8 := by
    rw [h.bytes, UInt64.toNat_shiftLeft, UInt64.toNat_ofNat', Nat.shiftLeft_eq]
    show data.length % 2 ^ 64 * 8 % 2 ^ 64 = _
    rw [Nat.mod_mul_mod, Nat.mul_comm]
    rfl
  have hlow : leBytes 8 (8 * data.length % 256 ^ 8) = leBytes 8 (8 * data.length) := by
    have hround := leBytes_leNat (leBytes 8 (8 * data.length))
    rwa [leNat_leBytes, leBytes_length] at hround
  rw [hbits, writeBE, hlow, writeBE]

/-- `Finalize` gives the hash of the standard. -/
theorem CSHA256.Holds.finalize {c : CSHA256} {data : Bytes} (h : c.Holds data) :
    c.finalize.1 = Standard.sha256 data := by
  have hpad := (h.write (0x80 :: List.replicate (Standard.zeros data.length) 0)).write
    (writeBE 8 (8 * data.length))
  rw [CSHA256.finalize, h.bufsize, sizedesc_eq h, Standard.sha256]
  show CSHA256.finalizeNoPadding _ = _
  rw [CSHA256.finalizeNoPadding]
  have hcompress : Transform = Standard.compress := funext₂ Transform_eq
  rw [← hcompress, ← initialState_eq]
  exact congrArg (fun s : Vector UInt32 8 => s.toList.flatMap _) hpad.state

/-- An object gives SHA-256 of the data, whatever it was used for before and in however many
pieces the data comes. -/
theorem finalize_writes_eq_sha256 (c : CSHA256) (pieces : List Bytes) :
    (pieces.foldl CSHA256.write c.reset).finalize.1 = Standard.sha256 pieces.flatten :=
  (c.writes_hold pieces).finalize

example : (CSHA256.write ⟨initialState, Vector.replicate 64 0, 0⟩ (ascii "abc")).finalize.1 =
    [186, 120, 22, 191, 143, 1, 207, 234, 65, 65, 64, 222, 93, 174, 34, 35, 176, 3, 97, 163, 150,
      23, 122, 156, 180, 16, 255, 97, 242, 0, 21, 173] := by decide +kernel

/-- Calls of `SHA256d` one after the other share the static object and nothing else. -/
def sha256ds (c : CSHA256) : List Bytes → List Bytes
  | [] => []
  | data :: rest => (SHA256d c data).1 :: sha256ds (SHA256d c data).2 rest

theorem SHA256d_eq (c : CSHA256) (data : Bytes) :
    (SHA256d c data).1 = Standard.sha256 (Standard.sha256 data) := by
  have hfirst := (c.reset_holds.write data).finalize
  have hsecond := ((c.reset.write data).finalize.2.reset_holds.write
    (c.reset.write data).finalize.1).finalize
  rw [List.nil_append] at hfirst hsecond
  exact hsecond.trans (congrArg Standard.sha256 hfirst)

/-- Every call gives SHA-256 twice, in any state of the static object and after any calls. -/
theorem sha256ds_eq_map (c : CSHA256) (messages : List Bytes) :
    sha256ds c messages = messages.map (fun data => Standard.sha256 (Standard.sha256 data)) := by
  induction messages generalizing c with
  | nil => rfl
  | cons data rest ih => rw [sha256ds, List.map_cons, SHA256d_eq, ih]

end SickPool.Crypto.Sha256
