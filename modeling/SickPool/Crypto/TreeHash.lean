import Mathlib.Data.Nat.Bitwise
import SickPool.Crypto.MerkleTree
import SickPool.Library.Merkle

/-!
# The tree hash of CryptoNote

`tree_hash` of `cn/crypto/tree-hash.c`, the root over the transaction hashes of a block. The
hashes behind the first ones are paired, so that the number of nodes is a power of 2, and the
levels are hashed in place.
-/
namespace SickPool.Crypto.TreeHash

open SickPool.Library SickPool.Library.Bytes SickPool.Library.Merkle SickPool.Utils
open SickPool.Crypto.MerkleTree (zeroHash)

/-- The loop `for (i = 1; i < 8 * sizeof(size_t); i <<= 1) cnt |= cnt >> i`. -/
def spread (cnt : BitVec 64) : BitVec 64 :=
  (List.range 6).foldl (fun cnt k => cnt ||| (cnt >>> 2 ^ k)) cnt

/-- `cnt` before the nodes are allocated. -/
def nodeCount (count : BitVec 64) : BitVec 64 :=
  let cnt := spread (count - 1)
  cnt &&& ~~~(cnt >>> 1)

variable (h : Hash32 → Hash32 → Hash32)

/-- `cn_fast_hash(from[i], 64, to[j])`. -/
def hashInto (source : List Hash32) (i : Nat) (target : List Hash32) (j : Nat) : List Hash32 :=
  target.set j (h (source.getD i zeroHash) (source.getD (i + 1) zeroHash))

/-- A level in place: `for (i = 0, j = 0; j < cnt; i += 2, ++j)`. -/
def levelInPlace (cnt : Nat) (ints : List Hash32) : List Hash32 :=
  (List.range cnt).foldl (fun ints j => hashInto h ints (2 * j) ints j) ints

/-- `while (cnt > 2)`, and the last two nodes. -/
def climb (cnt : Nat) (ints : List Hash32) : Hash32 :=
  if 2 < cnt then climb (cnt / 2) (levelInPlace h (cnt / 2) ints)
  else h (ints.getD 0 zeroHash) (ints.getD 1 zeroHash)

/-- `tree_hash`; `none` is an assertion that fails. -/
def treeHash (hashes : List Hash32) : Option Hash32 :=
  let count := hashes.length
  if count = 0 then none
  else if count = 1 then some (hashes.getD 0 zeroHash)
  else if count = 2 then some (h (hashes.getD 0 zeroHash) (hashes.getD 1 zeroHash))
  else
    let cnt := (nodeCount (BitVec.ofNat 64 count)).toNat
    let start := 2 * cnt - count
    let ints := hashes.take start ++ List.replicate (cnt - start) zeroHash
    let ints := (List.range (cnt - start)).foldl
      (fun ints n => hashInto h hashes (start + 2 * n) ints (start + n)) ints
    if start + 2 * (cnt - start) = count then some (climb h cnt ints) else none

/-! ## The number of nodes -/

theorem getLsbD_spread_step (c : BitVec 64) (k i : ℕ) :
    ((List.range k).foldl (fun (cnt : BitVec 64) k => cnt ||| (cnt >>> 2 ^ k)) c).getLsbD i = true ↔
      ∃ d < 2 ^ k, c.getLsbD (i + d) = true := by
  induction k generalizing i with
  | zero => simp
  | succ k ih =>
    rw [List.range_succ, List.foldl_append, List.foldl_cons, List.foldl_nil, BitVec.getLsbD_or,
      BitVec.getLsbD_ushiftRight, Bool.or_eq_true, ih, ih]
    constructor
    · rintro (⟨d, hd, hbit⟩ | ⟨d, hd, hbit⟩)
      · exact ⟨d, by omega, hbit⟩
      · exact ⟨2 ^ k + d, by omega, by rwa [show i + (2 ^ k + d) = 2 ^ k + i + d by omega]⟩
    · rintro ⟨d, hd, hbit⟩
      by_cases hlow : d < 2 ^ k
      · exact .inl ⟨d, hlow, hbit⟩
      · exact .inr ⟨d - 2 ^ k, by omega,
          by rwa [show 2 ^ k + i + (d - 2 ^ k) = i + d by omega]⟩

/-- Every bit below the highest one is set. -/
theorem getLsbD_spread {c : BitVec 64} (hc : c.toNat ≠ 0) (i : ℕ) :
    (spread c).getLsbD i = true ↔ i ≤ c.toNat.log2 := by
  rw [spread, getLsbD_spread_step]
  constructor
  · rintro ⟨d, -, hbit⟩
    have hle := Nat.ge_two_pow_of_testBit hbit
    have := (Nat.le_log2 hc).mpr hle
    omega
  · intro hi
    have hlog : c.toNat.log2 < 64 := (Nat.log2_lt hc).mpr c.isLt
    refine ⟨c.toNat.log2 - i, by omega, ?_⟩
    rw [Nat.add_sub_cancel' hi]
    exact Nat.testBit_log2 hc

/-- The nodes are as many as the largest power of 2 below the number of the hashes. -/
theorem nodeCount_eq {count : ℕ} (hc : 1 < count) (hw : count < 2 ^ 64) :
    (nodeCount (BitVec.ofNat 64 count)).toNat = 2 ^ (count - 1).log2 := by
  have hpred : (BitVec.ofNat 64 count - 1).toNat = count - 1 := by
    rw [BitVec.toNat_sub, BitVec.toNat_ofNat, show (1 : BitVec 64).toNat = 1 from rfl]
    omega
  have hne : (BitVec.ofNat 64 count - 1).toNat ≠ 0 := by omega
  have hlog : (count - 1).log2 < 64 := (Nat.log2_lt (by omega)).mpr (by omega)
  apply Nat.eq_of_testBit_eq
  intro i
  rw [Nat.testBit_two_pow]
  change (nodeCount (BitVec.ofNat 64 count)).getLsbD i = _
  rw [nodeCount, BitVec.getLsbD_and, BitVec.getLsbD_not, BitVec.getLsbD_ushiftRight]
  have hhere := getLsbD_spread hne i
  have hnext := getLsbD_spread hne (1 + i)
  rw [hpred] at hhere hnext
  grind

/-! ## Levels -/

section

variable {α : Type*} {m : ℕ} {l : List α}

/-- Cells that are written one after the other, where what is written is read from the cells
not written yet. -/
theorem foldl_set_range (start : ℕ) (f : ℕ → List α → α) (g : ℕ → α) (hlen : start + m ≤ l.length)
    (hread : ∀ n < m, ∀ done : List α, done.length = start + n →
      f n (done ++ l.drop (start + n)) = g n) :
    (List.range m).foldl (fun l n => l.set (start + n) (f n l)) l =
      l.take start ++ (List.range m).map g ++ l.drop (start + m) := by
  induction m with
  | zero => simp
  | succ m ih =>
    have hdone : (l.take start ++ (List.range m).map g).length = start + m := by
      rw [List.length_append, List.length_take, List.length_map, List.length_range]
      omega
    rw [List.range_succ, List.foldl_append, List.foldl_cons, List.foldl_nil,
      ih (by omega) (fun n hn => hread n (by omega)), hread m (by omega) _ hdone,
      List.drop_eq_getElem_cons (by omega : start + m < l.length),
      List.set_append_right _ _ (by omega), hdone, Nat.sub_self, List.set_cons_zero,
      List.map_append, List.map_singleton]
    simp only [List.append_assoc, List.singleton_append, Nat.add_assoc]

end

theorem getD_append_drop {done l : List Hash32} {i k : ℕ} (hd : done.length = k) (hk : k ≤ i) :
    (done ++ l.drop k).getD i zeroHash = l.getD i zeroHash := by
  rw [List.getD_append_right _ _ _ _ (by omega), hd, List.getD_eq_getElem?_getD,
    List.getElem?_drop, List.getD_eq_getElem?_getD, Nat.add_sub_cancel' hk]

variable {h}

theorem levelInPlace_eq {cnt : ℕ} {ints : List Hash32} (hlen : 2 * cnt ≤ ints.length) :
    levelInPlace h cnt ints = (List.range cnt).map (fun j =>
      h (ints.getD (2 * j) zeroHash) (ints.getD (2 * j + 1) zeroHash)) ++ ints.drop cnt := by
  have hlevel := foldl_set_range 0 (m := cnt) (l := ints)
    (fun j ints => h (ints.getD (2 * j) zeroHash) (ints.getD (2 * j + 1) zeroHash))
    (fun j => h (ints.getD (2 * j) zeroHash) (ints.getD (2 * j + 1) zeroHash)) (by omega)
    (fun n hn done hd => by
      rw [getD_append_drop hd (by omega), getD_append_drop hd (by omega)])
  simp only [Nat.zero_add, List.take_zero, List.nil_append] at hlevel
  exact hlevel

/-- A level in place is the level above. -/
theorem take_levelInPlace {cnt : ℕ} {ints : List Hash32} (hlen : 2 * cnt ≤ ints.length) :
    (levelInPlace h cnt ints).take cnt = pairUp h (ints.take (2 * cnt)) := by
  rw [levelInPlace_eq hlen, List.take_left' (by simp),
    pairUp_eq_map h zeroHash (m := cnt) (by rw [List.length_take]; omega)]
  refine List.map_congr_left fun j hj => ?_
  have hj := List.mem_range.mp hj
  simp only [List.getD_eq_getElem?_getD]
  rw [List.getElem?_take_of_lt (by omega), List.getElem?_take_of_lt (by omega)]

theorem climb_eq_root {k : ℕ} (hk : 0 < k) {ints : List Hash32} (hlen : 2 ^ k ≤ ints.length) :
    climb h (2 ^ k) ints = root h zeroHash (ints.take (2 ^ k)) := by
  induction k, hk using Nat.le_induction generalizing ints with
  | base =>
    rcases ints with _ | ⟨a, _ | ⟨b, rest⟩⟩
    · simp at hlen
    · simp at hlen
    · rw [climb, if_neg (by decide)]
      change h a b = root h zeroHash [a, b]
      rw [root, pairUp, pairUp, root]
  | succ k hk ih =>
    have hhalf : 2 ^ (k + 1) / 2 = 2 ^ k := by omega
    have hdouble : 2 * 2 ^ k = 2 ^ (k + 1) := by omega
    have hlarge : 2 < 2 ^ (k + 1) := by
      have := Nat.pow_le_pow_right (show 0 < 2 by decide) (show 2 ≤ k + 1 by omega)
      have hk' : 2 ^ 1 ≤ 2 ^ k := Nat.pow_le_pow_right (by decide) hk
      omega
    have hlength : (levelInPlace h (2 ^ k) ints).length = ints.length := by
      rw [levelInPlace_eq (by omega), List.length_append, List.length_map, List.length_range,
        List.length_drop]
      omega
    rw [climb, if_pos hlarge, hhalf, ih (by omega), take_levelInPlace (by omega), hdouble,
      root_pairUp]
    rw [List.length_take]
    omega

/-! ## The root -/

/-- The nodes that are hashed first, behind the `start` hashes that are copied. -/
theorem firstLevel_eq {hashes : List Hash32} {start m : ℕ} (hlen : start + 2 * m = hashes.length) :
    (List.range m).foldl (fun ints n => hashInto h hashes (start + 2 * n) ints (start + n))
      (hashes.take start ++ List.replicate m zeroHash) =
      hashes.take start ++ pairUp h (hashes.drop start) := by
  have hstart : (hashes.take start).length = start := by
    rw [List.length_take]
    omega
  have hall : (hashes.take start ++ List.replicate m zeroHash).length = start + m := by
    rw [List.length_append, hstart, List.length_replicate]
  have hlevel := foldl_set_range start
    (fun n _ => h (hashes.getD (start + 2 * n) zeroHash) (hashes.getD (start + 2 * n + 1) zeroHash))
    (fun n => h (hashes.getD (start + 2 * n) zeroHash) (hashes.getD (start + 2 * n + 1) zeroHash))
    (Nat.le_of_eq hall.symm) (fun _ _ _ _ => rfl)
  rw [List.take_left' hstart, List.drop_eq_nil_of_le (Nat.le_of_eq hall), List.append_nil]
    at hlevel
  rw [pairUp_eq_map h zeroHash (m := m) (by rw [List.length_drop]; omega)]
  simp only [List.getD_eq_getElem?_getD, List.getElem?_drop, hashInto] at hlevel ⊢
  exact hlevel

/-- The leaves of the full tree: the first hashes, and the others in pairs. -/
def leaves (h : Hash32 → Hash32 → Hash32) (hashes : List Hash32) : List Hash32 :=
  let kept := 2 * 2 ^ (hashes.length - 1).log2 - hashes.length
  hashes.take kept ++ pairUp h (hashes.drop kept)

theorem leaves_length {hashes : List Hash32} (hne : hashes ≠ []) :
    (leaves h hashes).length = 2 ^ (hashes.length - 1).log2 := by
  have hpos := List.length_pos_of_ne_nil hne
  have hhigh : hashes.length - 1 < 2 ^ ((hashes.length - 1).log2 + 1) := Nat.lt_log2_self
  have hlow : 2 ^ (hashes.length - 1).log2 ≤ hashes.length := by
    by_cases hone : hashes.length - 1 = 0
    · rw [hone]
      exact hpos
    · have := Nat.log2_self_le hone
      omega
  rw [leaves, List.length_append, List.length_take, pairUp_length, List.length_drop]
  omega

/-- No assertion fails, and the tree hash is the root over the leaves, which are as many as a
power of 2. -/
theorem treeHash_eq_root {hashes : List Hash32} (hne : hashes ≠ [])
    (hw : hashes.length < 2 ^ 64) :
    treeHash h hashes = some (root h zeroHash (leaves h hashes)) := by
  rcases hashes with _ | ⟨a, _ | ⟨b, _ | ⟨c, rest⟩⟩⟩
  · exact absurd rfl hne
  · change some a = some (root h zeroHash [a])
    rw [root_singleton]
  · change some (h a b) = some (root h zeroHash [h a b])
    rw [root_singleton]
  · generalize hl : a :: b :: c :: rest = hashes at hw hne
    have hcount : 3 ≤ hashes.length := by
      rw [← hl]
      simp
    have hlog : 0 < (hashes.length - 1).log2 := (Nat.le_log2 (by omega)).mpr (by omega)
    have hlow : 2 ^ (hashes.length - 1).log2 ≤ hashes.length - 1 := Nat.log2_self_le (by omega)
    have hhigh : hashes.length - 1 < 2 ^ ((hashes.length - 1).log2 + 1) := Nat.lt_log2_self
    rw [treeHash]
    simp only
    rw [if_neg (by omega), if_neg (by omega), if_neg (by omega), nodeCount_eq (by omega) hw]
    have hcount' : 2 * 2 ^ (hashes.length - 1).log2 - hashes.length +
        2 * (2 ^ (hashes.length - 1).log2 - (2 * 2 ^ (hashes.length - 1).log2 - hashes.length)) =
        hashes.length := by omega
    have hleaves := leaves_length (h := h) hne
    rw [if_pos hcount', firstLevel_eq hcount', Option.some_inj]
    change climb h _ (leaves h hashes) = _
    rw [climb_eq_root hlog (Nat.le_of_eq hleaves.symm), List.take_of_length_le (by omega)]

end SickPool.Crypto.TreeHash
