import SickPool.Library.Keccak

/-!
# Keccak of CryptoNote

`keccakf` and `keccak` of `cn/crypto/keccak.c`, the loops as they stand: the columns are added in
place, the lanes move along one cycle through a temporary, and the rows are read before they are
overwritten.
-/
namespace SickPool.Crypto.Keccak

open SickPool.Library SickPool.Library.Bytes SickPool.Library.Absorb SickPool.Library.Keccak

/-- `st[i]` of a `uint64_t st[25]`. -/
def word (st : State 64) (i : Nat) : BitVec 64 := st.get (Fin.ofNat 25 i)

/-- `st[i] = x`. -/
def setWord (st : State 64) (i : Nat) (x : BitVec 64) : State 64 := st.set (Fin.ofNat 25 i) x

def ROTL64 (x : BitVec 64) (y : Nat) : BitVec 64 := (x <<< y) ||| (x >>> (64 - y))

def keccakf_rndc : Vector (BitVec 64) 24 := #v[
  0x0000000000000001, 0x0000000000008082, 0x800000000000808a,
  0x8000000080008000, 0x000000000000808b, 0x0000000080000001,
  0x8000000080008081, 0x8000000000008009, 0x000000000000008a,
  0x0000000000000088, 0x0000000080008009, 0x000000008000000a,
  0x000000008000808b, 0x800000000000008b, 0x8000000000008089,
  0x8000000000008003, 0x8000000000008002, 0x8000000000000080,
  0x000000000000800a, 0x800000008000000a, 0x8000000080008081,
  0x8000000000008080, 0x0000000080000001, 0x8000000080008008]

def keccakf_rotc : Vector Nat 24 := #v[1, 3, 6, 10, 15, 21, 28, 36, 45, 55, 2, 14, 27, 41, 56, 8, 25,
  43, 62, 18, 39, 61, 20, 44]

def keccakf_piln : Vector Nat 24 := #v[10, 7, 11, 17, 18, 3, 5, 16, 8, 21, 24, 4, 15, 23, 19, 13, 12,
  2, 20, 14, 22, 9, 6, 1]

/-- The two loops under `Theta`. -/
def thetaLoops (st : State 64) : State 64 :=
  let bc : Vector (BitVec 64) 5 := Vector.ofFn fun i =>
    word st i ^^^ word st (i + 5) ^^^ word st (i + 10) ^^^ word st (i + 15) ^^^ word st (i + 20)
  (List.range 5).foldl (fun st i =>
    let t := bc.get (Fin.ofNat 5 (i + 4)) ^^^ ROTL64 (bc.get (Fin.ofNat 5 (i + 1))) 1
    [0, 5, 10, 15, 20].foldl (fun st j => setWord st (j + i) (word st (j + i) ^^^ t)) st) st

/-- The loop under `Rho Pi`, with the temporary `t`. -/
def rhoPiLoop (st : State 64) : State 64 :=
  ((List.range 24).foldl (fun (s : State 64 × BitVec 64) i =>
    let j := keccakf_piln.get (Fin.ofNat 24 i)
    (setWord s.1 j (ROTL64 s.2 (keccakf_rotc.get (Fin.ofNat 24 i))), word s.1 j)) (st, word st 1)).1

/-- The loops under `Chi`. -/
def chiLoops (st : State 64) : State 64 :=
  [0, 5, 10, 15, 20].foldl (fun st j =>
    let bc : Vector (BitVec 64) 5 := Vector.ofFn fun i => word st (j + i)
    (List.range 5).foldl (fun st i => setWord st (j + i)
      (word st (j + i) ^^^ (~~~bc.get (Fin.ofNat 5 (i + 1)) &&& bc.get (Fin.ofNat 5 (i + 2))))) st) st

def keccakf (st : State 64) (rounds : Nat) : State 64 :=
  (List.range rounds).foldl (fun st round =>
    let st := chiLoops (rhoPiLoop (thetaLoops st))
    setWord st 0 (word st 0 ^^^ keccakf_rndc.get (Fin.ofNat 24 round))) st

/-! ## The permutation of the standard -/

theorem ROTL64_eq {y : Nat} (x : BitVec 64) (hy : y < 64) : ROTL64 x y = x.rotateLeft y := by
  rw [ROTL64, BitVec.rotateLeft, BitVec.rotateLeftAux, Nat.mod_eq_of_lt hy]

theorem word_eq (st : State 64) {k : Nat} (hk : k < 25) : word st k = st[k] := by
  have hindex : Fin.ofNat 25 k = ⟨k, hk⟩ := Fin.ext (Nat.mod_eq_of_lt hk)
  rw [word, hindex]
  rfl

theorem word_setWord (st : State 64) {i k : Nat} (hi : i < 25) (hk : k < 25) (x : BitVec 64) :
    word (setWord st i x) k = if i = k then x else word st k := by
  have hindex : (Fin.ofNat 25 i).val = i := Nat.mod_eq_of_lt hi
  rw [word_eq _ hk, word_eq _ hk, setWord, Vector.getElem_set, hindex]

theorem ext_word {A B : State 64} (h : ∀ k < 25, word A k = word B k) : A = B :=
  Vector.ext fun k hk => by rw [← word_eq A hk, ← word_eq B hk, h k hk]

theorem word_build (f : Nat → Nat → BitVec 64) {k : Nat} (hk : k < 25) :
    word (build f) k = f (k % 5) (k / 5) := by
  rw [word_eq _ hk, build, Vector.getElem_ofFn]

theorem lane_eq_word (A : State 64) (x y : Nat) : lane A x y = word A (x % 5 + 5 * (y % 5)) :=
  (word_eq A (index_lt x y)).symm

/-- Updates in place that each change one class of words, from what is in that class. -/
theorem word_foldl {is : List Nat} (hnodup : is.Nodup) {c : Nat → Nat}
    {F : Nat → (Nat → BitVec 64) → BitVec 64}
    (hF : ∀ k < 25, ∀ v v', (∀ k', k' < 25 → c k' = c k → v k' = v' k') → F k v = F k v')
    {U : State 64 → Nat → State 64}
    (hU : ∀ i ∈ is, ∀ st, ∀ k < 25, word (U st i) k = if c k = i then F k (word st) else word st k)
    (st : State 64) {k : Nat} (hk : k < 25) :
    word (is.foldl U st) k = if c k ∈ is then F k (word st) else word st k := by
  induction is generalizing st with
  | nil => exact (if_neg List.not_mem_nil).symm
  | cons i is ih =>
    obtain ⟨hi, hnodup⟩ := List.nodup_cons.mp hnodup
    have hfirst := hU i List.mem_cons_self st
    rw [List.foldl_cons, ih hnodup fun j hj => hU j (List.mem_cons_of_mem i hj)]
    by_cases hmem : c k ∈ is
    · have hne : ∀ k', c k' = c k → c k' ≠ i := fun k' h hi' => hi (hi' ▸ h ▸ hmem)
      rw [if_pos hmem, if_pos (List.mem_cons_of_mem i hmem)]
      refine hF k hk _ _ fun k' hk' h => ?_
      rw [hfirst k' hk', if_neg (hne k' h)]
    · rw [if_neg hmem, hfirst k hk]
      simp only [List.mem_cons, hmem, or_false]

/-- The five words of a column. -/
theorem word_columnLoop {i : Nat} (hi : i < 5) (t : BitVec 64) (st : State 64) {k : Nat}
    (hk : k < 25) :
    word ([0, 5, 10, 15, 20].foldl (fun st j => setWord st (j + i) (word st (j + i) ^^^ t)) st) k =
      if k % 5 = i then word st k ^^^ t else word st k := by
  have hplace : ∀ i < 5, ∀ k < 25, ∀ j ∈ [0, 5, 10, 15, 20],
      j + i = k ↔ (if k % 5 = i then k / 5 * 5 else 25) = j := by decide
  have hclass : ∀ i < 5, ∀ k < 25,
      (if k % 5 = i then k / 5 * 5 else 25) ∈ [0, 5, 10, 15, 20] ↔ k % 5 = i := by decide
  have hbound : ∀ i < 5, ∀ j ∈ [0, 5, 10, 15, 20], j + i < 25 := by decide
  rw [word_foldl (c := fun k => if k % 5 = i then k / 5 * 5 else 25) (F := fun k v => v k ^^^ t)
    (by decide) (fun k hk v v' h => by rw [h k hk rfl]) (fun j hj st k hk => ?_) st hk]
  · simp only [hclass i hi k hk]
  · rw [word_setWord st (hbound i hi j hj) hk]
    by_cases hsame : j + i = k
    · rw [if_pos hsame, if_pos ((hplace i hi k hk j hj).mp hsame), hsame]
    · rw [if_neg hsame, if_neg (mt (hplace i hi k hk j hj).mpr hsame)]

theorem lane_word {k : Nat} (hk : k < 25) (A : State 64) : lane A (k % 5) (k / 5) = word A k := by
  rw [lane_eq_word, Nat.mod_mod, Nat.mod_eq_of_lt (by omega : k / 5 < 5), Nat.mod_add_div]

theorem parity_eq (A : State 64) (x : Nat) : parity A x =
    word A (x % 5) ^^^ word A (x % 5 + 5) ^^^ word A (x % 5 + 10) ^^^ word A (x % 5 + 15) ^^^
      word A (x % 5 + 20) := by
  simp only [parity, lane_eq_word]
  rfl

theorem get_ofFn {n : Nat} (f : Fin n → BitVec 64) (i : Fin n) : (Vector.ofFn f).get i = f i :=
  Vector.getElem_ofFn i.isLt

theorem thetaLoops_eq (st : State 64) : thetaLoops st = theta st := by
  refine ext_word fun k hk => ?_
  have hmod : ∀ k, k % 5 ∈ List.range 5 := fun k => List.mem_range.mpr (Nat.mod_lt k (by decide))
  rw [thetaLoops, word_foldl (c := (· % 5)) (F := fun k v => v k ^^^
    (parity st (k % 5 + 4) ^^^ (parity st (k % 5 + 1)).rotateLeft 1))
    List.nodup_range (fun k hk v v' h => by rw [h k hk rfl]) (fun i hi s k hk => ?_) st hk,
    if_pos (hmod k), theta, word_build _ hk, lane_word hk]
  have hi : i < 5 := List.mem_range.mp hi
  rw [word_columnLoop hi _ s hk, ROTL64_eq _ (by decide)]
  split
  case isFalse h => rfl
  case isTrue h =>
    rw [h, get_ofFn, get_ofFn, parity_eq, parity_eq]
    rfl

/-- The five words of a row, from the row as it was. -/
theorem word_rowLoop {j : Nat} (hj : j ∈ [0, 5, 10, 15, 20]) (g : Nat → BitVec 64) (st : State 64)
    {k : Nat} (hk : k < 25) :
    word ((List.range 5).foldl (fun st i => setWord st (j + i) (word st (j + i) ^^^ g i)) st) k =
      if k / 5 * 5 = j then word st k ^^^ g (k % 5) else word st k := by
  have hplace : ∀ j ∈ [0, 5, 10, 15, 20], ∀ k < 25, ∀ i < 5,
      j + i = k ↔ (if k / 5 * 5 = j then k % 5 else 5) = i := by decide
  have hclass : ∀ k < 25, (if k / 5 * 5 = j then k % 5 else 5) ∈ List.range 5 ↔ k / 5 * 5 = j := by
    revert j
    decide
  have hbound : ∀ j ∈ [0, 5, 10, 15, 20], ∀ i < 5, j + i < 25 := by decide
  rw [word_foldl (c := fun k => if k / 5 * 5 = j then k % 5 else 5)
    (F := fun k v => v k ^^^ g (k % 5)) List.nodup_range (fun k hk v v' h => by rw [h k hk rfl])
    (fun i hi st k hk => ?_) st hk]
  · simp only [hclass k hk]
  · have hi := List.mem_range.mp hi
    rw [word_setWord st (hbound j hj i hi) hk]
    by_cases hsame : j + i = k
    · have hmod : k % 5 = i := by
        have hmul : ∀ j ∈ [0, 5, 10, 15, 20], j % 5 = 0 := by decide
        have hj5 := hmul j hj
        omega
      rw [if_pos hsame, if_pos ((hplace j hj k hk i hi).mp hsame), hsame, hmod]
    · rw [if_neg hsame, if_neg (mt (hplace j hj k hk i hi).mpr hsame)]

theorem chiLoops_eq (st : State 64) : chiLoops st = chi st := by
  refine ext_word fun k hk => ?_
  have hmem : ∀ k < 25, k / 5 * 5 ∈ [0, 5, 10, 15, 20] := by decide
  have hrow : ∀ k < 25, ∀ n < 5, (k / 5 * 5 + n) / 5 * 5 = k / 5 * 5 ∧ k / 5 * 5 + n < 25 := by decide
  rw [chiLoops, word_foldl (c := fun k => k / 5 * 5) (F := fun k v => v k ^^^
    (~~~v (k / 5 * 5 + (k % 5 + 1) % 5) &&& v (k / 5 * 5 + (k % 5 + 2) % 5)))
    (by decide) (fun k hk v v' h => ?_) (fun j hj s k hk => ?_) st hk, if_pos (hmem k hk), chi,
    word_build _ hk, lane_word hk, lane_eq_word, lane_eq_word]
  · have hy : k / 5 % 5 = k / 5 := Nat.mod_eq_of_lt (by omega)
    rw [hy, Nat.add_comm, Nat.mul_comm, Nat.add_comm ((k % 5 + 2) % 5)]
  · have h₁ := hrow k hk _ (Nat.mod_lt (k % 5 + 1) (by decide))
    have h₂ := hrow k hk _ (Nat.mod_lt (k % 5 + 2) (by decide))
    rw [h k hk rfl, h _ h₁.2 h₁.1, h _ h₂.2 h₂.1]
  · rw [word_rowLoop hj _ s hk]
    split
    case isFalse h => rfl
    case isTrue h =>
      rw [get_ofFn, get_ofFn, ← h]
      rfl

/-- The place the loop over the lanes reaches in turn `n`. -/
def place (n : Nat) : Nat := keccakf_piln.get (Fin.ofNat 24 n)

/-- The place before it: the cycle starts at 1. -/
def placeBefore (n : Nat) : Nat := if n = 0 then 1 else place (n - 1)

theorem place_lt : ∀ n < 24, place n < 25 := by decide

theorem place_inj : ∀ i < 24, ∀ j < 24, place i = place j → i = j := by decide

/-- The loop `Rho Pi` before turn `n`: the places it was at hold the lane of the place before,
turned, and `t` holds the lane of the last place. -/
structure Moved (st : State 64) (n : Nat) (s : State 64 × BitVec 64) : Prop where
  temporary : s.2 = word st (placeBefore n)
  visited : ∀ i < n, word s.1 (place i) =
    ROTL64 (word st (placeBefore i)) (keccakf_rotc.get (Fin.ofNat 24 i))
  rest : ∀ k < 25, (∀ i < n, place i ≠ k) → word s.1 k = word st k

theorem moved (st : State 64) {n : Nat} (hn : n ≤ 24) :
    Moved st n ((List.range n).foldl (fun (s : State 64 × BitVec 64) i =>
      let j := keccakf_piln.get (Fin.ofNat 24 i)
      (setWord s.1 j (ROTL64 s.2 (keccakf_rotc.get (Fin.ofNat 24 i))), word s.1 j))
      (st, word st 1)) := by
  induction n with
  | zero => exact ⟨rfl, fun i hi => absurd hi (Nat.not_lt_zero i), fun k _ _ => rfl⟩
  | succ n ih =>
    rw [List.range_succ, List.foldl_append]
    generalize (List.range n).foldl _ (st, word st 1) = s at ih ⊢
    have h := ih (Nat.le_of_succ_le hn)
    have hlt := place_lt n hn
    have hnew : ∀ i < n, place i ≠ place n :=
      fun i hi he => Nat.ne_of_lt hi (place_inj i (hi.trans hn) n hn he)
    constructor
    · exact h.rest (place n) hlt hnew
    · intro i hi
      show word (setWord s.1 (place n) _) (place i) = _
      rw [word_setWord _ hlt (place_lt i (by omega))]
      rcases Nat.lt_succ_iff_lt_or_eq.mp hi with hi | rfl
      · rw [if_neg (hnew i hi).symm, h.visited i hi]
      · rw [if_pos rfl, h.temporary]
    · intro k hk hne
      show word (setWord s.1 (place n) _) k = _
      rw [word_setWord _ hlt hk, if_neg (hne n (Nat.lt_succ_self n))]
      exact h.rest k hk fun i hi => hne i (Nat.lt_succ_of_lt hi)

/-- What the tables of the loop say: the place before, and the rotation. -/
theorem place_spec : ∀ i < 24,
    placeBefore i = (place i % 5 + 3 * (place i / 5)) % 5 + 5 * (place i % 5 % 5) ∧
      keccakf_rotc.get (Fin.ofNat 24 i) =
        offset (place i % 5 + 3 * (place i / 5)) (place i % 5) % 64 := by
  decide +kernel

theorem rotateLeft_zero (x : BitVec 64) : x.rotateLeft 0 = x := by
  rw [BitVec.rotateLeft, BitVec.rotateLeftAux, Nat.zero_mod, BitVec.shiftLeft_zero,
    BitVec.ushiftRight_eq_zero (Nat.le_refl 64), BitVec.or_zero]

theorem rhoPiLoop_eq (st : State 64) : rhoPiLoop st = rhoPi st := by
  refine ext_word fun k hk => ?_
  have h := moved st (Nat.le_refl 24)
  have hcover : ∀ k < 25, k = 0 ∨ ∃ i, i < 24 ∧ place i = k := by decide
  rw [rhoPiLoop, rhoPi, word_build _ hk]
  rcases hcover k hk with rfl | ⟨i, hi, rfl⟩
  · have hzero : ∀ i < 24, place i ≠ 0 := by decide
    rw [h.rest 0 (by decide) hzero, lane_eq_word, ← BitVec.rotateLeft_mod_eq_rotateLeft]
    have hoffset : offset (0 % 5 + 3 * (0 / 5)) (0 % 5) = 0 := by decide +kernel
    rw [hoffset]
    exact (rotateLeft_zero _).symm
  · obtain ⟨hbefore, hrot⟩ := place_spec i hi
    rw [h.visited i hi, lane_eq_word, ← hbefore, ← BitVec.rotateLeft_mod_eq_rotateLeft, ← hrot]
    exact ROTL64_eq _ (hrot ▸ Nat.mod_lt _ (by decide))

theorem rndc_eq : ∀ r < 24, keccakf_rndc.get (Fin.ofNat 24 r) = roundConstant 64 r := by
  decide +kernel

theorem iota_eq (rc : BitVec 64) (st : State 64) : setWord st 0 (word st 0 ^^^ rc) = iota rc st := by
  refine ext_word fun k hk => ?_
  have hfirst : k % 5 = 0 ∧ k / 5 = 0 ↔ 0 = k := by omega
  rw [word_setWord st (by decide) hk, iota, word_build _ hk, lane_word hk]
  simp only [hfirst]
  split
  case isTrue h => rw [h]
  case isFalse h => rfl

theorem keccakf_succ (st : State 64) (n : Nat) :
    keccakf st (n + 1) = setWord (chiLoops (rhoPiLoop (thetaLoops (keccakf st n)))) 0
      (word (chiLoops (rhoPiLoop (thetaLoops (keccakf st n)))) 0 ^^^
        keccakf_rndc.get (Fin.ofNat 24 n)) := by
  unfold keccakf
  rw [List.range_succ, List.foldl_append]
  generalize (List.range n).foldl _ st = s
  rfl

theorem keccakf_eq (st : State 64) {rounds : Nat} (h : rounds ≤ 24) :
    keccakf st rounds = permute rounds st := by
  induction rounds with
  | zero => rw [keccakf, permute, List.range_zero, List.foldl_nil, List.foldl_nil]
  | succ n ih =>
    rw [keccakf_succ, iota_eq, chiLoops_eq, rhoPiLoop_eq, thetaLoops_eq, rndc_eq n h,
      ih (Nat.le_of_succ_le h), permute_succ, Keccak.round]

/-! ## The sponge -/

/-- `((uint64_t *)in)[i]`. -/
def readWord (data : Bytes) (i : Nat) : BitVec 64 :=
  BitVec.ofNat 64 (leNat ((data.drop (8 * i)).take 8))

/-- `for (i = 0; i < rsizw; i++) st[i] ^= ((uint64_t *)in)[i]`. -/
def xorWords (st : State 64) (rsizw : Nat) (data : Bytes) : State 64 :=
  (List.range rsizw).foldl (fun st i => setWord st i (word st i ^^^ readWord data i)) st

/-- The loop over the whole blocks and the last block with its padding. -/
def keccakLoop (rsiz : Nat) (st : State 64) (data : Bytes) : State 64 :=
  if 0 < rsiz ∧ rsiz ≤ data.length then
    keccakLoop rsiz (keccakf (xorWords st (rsiz / 8) data) 24) (data.drop rsiz)
  else
    let temp := data ++ 1 :: List.replicate (rsiz - (data.length + 1)) 0
    let temp := temp.set (rsiz - 1) (temp.getD (rsiz - 1) 0 ||| 0x80)
    keccakf (xorWords st (rsiz / 8) temp) 24
termination_by data.length
decreasing_by exact drop_lt ‹_›

/-- `keccak(in, inlen, md, mdlen)`; `HASH_DATA_AREA` is 136. -/
def keccak (data : Bytes) (mdlen : Nat) : Bytes :=
  let rsiz := if mdlen = 200 then 136 else 200 - 2 * mdlen
  (stateBytes (keccakLoop rsiz (Vector.replicate 25 0) data)).take mdlen

def cn_fast_hash (data : Bytes) : Bytes := keccak data 32

theorem word_xorWords (st : State 64) {m : Nat} (hm : m ≤ 25) (data : Bytes) {k : Nat}
    (hk : k < 25) : word (xorWords st m data) k =
      if k < m then word st k ^^^ readWord data k else word st k := by
  rw [xorWords, word_foldl (c := id) (F := fun k v => v k ^^^ readWord data k) List.nodup_range
    (fun k hk v v' h => by rw [h k hk rfl]) (fun i hi s k hk => ?_) st hk]
  · simp only [id, List.mem_range]
  · have hi := List.mem_range.mp hi
    rw [word_setWord s (by omega) hk]
    by_cases hsame : i = k
    · subst hsame
      exact (if_pos rfl).trans (if_pos rfl).symm
    · rw [if_neg hsame]
      exact (if_neg fun h => hsame h.symm).symm

/-- The words of a block, with anything behind it. -/
theorem xorWords_eq {rsiz : Nat} (hrate : rsiz ≤ 200) (h8 : rsiz % 8 = 0) (st : State 64)
    {block : Bytes} (hblock : block.length = rsiz) (rest : Bytes) :
    xorWords st (rsiz / 8) (block ++ rest) = addBlock st block := by
  refine ext_word fun k hk => ?_
  rw [word_xorWords st (by omega) _ hk, word_eq (addBlock st block) hk, addBlock, Vector.getElem_ofFn,
    hblock]
  have hget : st.get ⟨k, hk⟩ = word st k := (word_eq st hk).symm
  simp only [hget]
  by_cases hword : k < rsiz / 8
  · rw [if_pos hword, if_pos (by omega), readWord, List.drop_append_of_le_length (by omega),
      List.take_append_of_le_length (by rw [List.length_drop]; omega)]
  · rw [if_neg hword, if_neg (by omega)]

/-- `temp[rsiz - 1] |= 0x80` on the last byte. -/
theorem set_last {bs : Bytes} {b : UInt8} {n : Nat} (h : bs.length = n) :
    (bs ++ [b]).set n ((bs ++ [b]).getD n 0 ||| 0x80) = bs ++ [b ||| 0x80] := by
  subst h
  have hlast : (bs ++ [b]).getD bs.length 0 = b := by
    rw [List.getD_eq_getElem?_getD, List.getElem?_append_right (Nat.le_refl _), Nat.sub_self]
    rfl
  rw [hlast, List.set_append_right _ _ (Nat.le_refl _), Nat.sub_self]
  rfl

/-- The last block as it is built in `temp`. -/
theorem temp_eq {rsiz : Nat} {data : Bytes} (h : data.length < rsiz) :
    (data ++ 1 :: List.replicate (rsiz - (data.length + 1)) 0).set (rsiz - 1)
      ((data ++ 1 :: List.replicate (rsiz - (data.length + 1)) 0).getD (rsiz - 1) 0 ||| 0x80) =
      data ++ padding (rsiz - data.length) := by
  by_cases hroom : rsiz - data.length = 1
  · have hlen : rsiz - (data.length + 1) = 0 := by omega
    rw [hlen, padding, if_pos hroom, List.replicate_zero, set_last (by omega)]
    rfl
  · obtain ⟨n, hn⟩ : ∃ n, rsiz - (data.length + 1) = n + 1 := ⟨rsiz - data.length - 2, by omega⟩
    have hsplit : data ++ 1 :: List.replicate (n + 1) 0 = (data ++ 1 :: List.replicate n 0) ++ [0] := by
      rw [List.replicate_succ', List.append_assoc, List.cons_append]
    have hlen : (data ++ 1 :: List.replicate n 0).length = rsiz - 1 := by
      rw [List.length_append, List.length_cons, List.length_replicate]
      omega
    have hzeros : rsiz - data.length - 2 = n := by omega
    rw [hn, hsplit, set_last hlen, padding, if_neg hroom, hzeros, List.append_assoc,
      List.cons_append]
    rfl

theorem padding_length {room : Nat} (h : 0 < room) : (padding room).length = room := by
  rw [padding]
  split
  case isTrue h1 => exact h1.symm
  case isFalse h1 =>
    rw [List.length_cons, List.length_append, List.length_replicate, List.length_singleton]
    omega

theorem padded_block {rate : Nat} {block : Bytes} (hb : block.length = rate) (rest : Bytes) :
    padded rate (block ++ rest) = block ++ padded rate rest := by
  rw [padded, padded, List.length_append, hb, Nat.add_mod_left, List.append_assoc]

theorem padded_length {rate : Nat} {data : Bytes} (h : data.length < rate) :
    (padded rate data).length = rate := by
  rw [padded, Nat.mod_eq_of_lt h, List.length_append, padding_length (by omega)]
  omega

theorem keccakLoop_eq {rsiz : Nat} (hpos : 0 < rsiz) (hrate : rsiz ≤ 200) (h8 : rsiz % 8 = 0)
    (st : State 64) (data : Bytes) :
    keccakLoop rsiz st data =
      (absorb rsiz (fun A block => permute 24 (addBlock A block)) st (padded rsiz data)).1 := by
  induction hk : data.length using Nat.strongRecOn generalizing st data with
  | ind k ih =>
    by_cases hlen : rsiz ≤ data.length
    · obtain ⟨block, rest, rfl, hb⟩ := exists_block hlen
      have hlt : rest.length < k := by
        rw [← hk, List.length_append]
        omega
      rw [keccakLoop, if_pos ⟨hpos, hlen⟩, List.drop_left' hb, xorWords_eq hrate h8 st hb,
        keccakf_eq _ (Nat.le_refl 24), ih _ hlt _ rest rfl, padded_block hb, absorb_block hpos hb]
    · have hlt : data.length < rsiz := Nat.lt_of_not_le hlen
      have hblock := padded_length hlt
      rw [keccakLoop, if_neg fun h => hlen h.2]
      simp only [temp_eq hlt]
      rw [← Nat.mod_eq_of_lt hlt, ← padded, ← List.append_nil (padded rsiz data),
        absorb_block hpos hblock, absorb_of_lt hpos, xorWords_eq hrate h8 st hblock,
        keccakf_eq _ (Nat.le_refl 24)]

/-- `cn_fast_hash` is Keccak-256. -/
theorem cn_fast_hash_eq (data : Bytes) : cn_fast_hash data = hash 32 data := by
  rw [cn_fast_hash, keccak, keccakLoop_eq (by decide) (by decide) (by decide)]
  rfl

end SickPool.Crypto.Keccak
