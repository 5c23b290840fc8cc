import SickPool.Crypto.MerkleTree
import SickPool.Library.Merkle
import Mathlib.Data.List.GetD

/-!
# The root that `CalcRoot` computes

The vector of `CalcRoot` is never shortened. An odd level is extended at the end of the
vector, which is the end of the level only for the leaves: at every later odd level the last
element is paired with what an earlier level left behind it. The root is the Bitcoin root
exactly when no later level is odd.
-/
namespace SickPool.Crypto.MerkleTree

open SickPool.Library SickPool.Library.Merkle SickPool.Utils

/-- `SHA256d` of two hashes that lie one behind the other. -/
def hashPair (sha256d : Bytes → Hash32) (a b : Hash32) : Hash32 := sha256d (a.toList ++ b.toList)

/-- The Bitcoin merkle root. -/
def merkleRoot (sha256d : Bytes → Hash32) (leaves : List Hash32) : Hash32 :=
  root (hashPair sha256d) zeroHash leaves

/-! ## One level -/

/-- The vector on which the inner loop of a level works. -/
def evened (hashCount : Nat) (hashes : List Hash32) : List Hash32 :=
  if hashCount % 2 = 1 then hashes ++ [hashes.getLastD zeroHash] else hashes

section Level

variable (sha256d : Bytes → Hash32) {pairs hashCount : Nat} {hashes : List Hash32}

theorem calcRootLoop_succ (fuel : Nat) (hc : 1 < hashCount) :
    calcRootLoop sha256d (fuel + 1) hashCount hashes = calcRootLoop sha256d fuel
      ((hashCount + 1) / 2) (hashLevel sha256d ((hashCount + 1) / 2) (evened hashCount hashes)) := by
  rw [calcRootLoop, if_pos hc, evened]
  split
  · rfl
  · rw [show (hashCount + 1) / 2 = hashCount / 2 by omega]

theorem calcRootLoop_one (fuel : Nat) : calcRootLoop sha256d fuel 1 hashes = hashes := by
  cases fuel with
  | zero => rfl
  | succ fuel => rw [calcRootLoop, if_neg (by decide)]

/-- The inner loop reads a pair before it writes over it. -/
theorem hashLevel_eq (hp : 2 * pairs ≤ hashes.length) :
    hashLevel sha256d pairs hashes = (List.range pairs).map (fun j => hashPair sha256d
      (hashes.getD (2 * j) zeroHash) (hashes.getD (2 * j + 1) zeroHash)) ++ hashes.drop pairs := by
  induction pairs with
  | zero => rfl
  | succ m ih =>
    have hbehind : ∀ (done : List Hash32) (i : Nat), done.length = m → m ≤ i →
        (done ++ hashes.drop m).getD i zeroHash = hashes.getD i zeroHash := by
      intro done i hd hi
      rw [List.getD_append_right _ _ _ _ (by omega), hd, List.getD_eq_getElem?_getD,
        List.getElem?_drop, List.getD_eq_getElem?_getD, Nat.add_sub_cancel' hi]
    have hcons : hashes.drop m = hashes.getD m zeroHash :: hashes.drop (m + 1) := by
      rw [List.drop_eq_getElem_cons (by omega), List.getD_eq_getElem _ _ (by omega)]
    have ih := ih (by omega)
    unfold hashLevel at ih ⊢
    rw [List.range_succ, List.foldl_append, ih, List.foldl_cons, List.foldl_nil,
      hbehind _ _ (by simp) (by omega), hbehind _ _ (by simp) (by omega), List.map_append,
      List.set_append_right _ _ (by simp), List.length_map, List.length_range, Nat.sub_self, hcons,
      List.set_cons_zero, List.append_assoc]
    rfl

theorem hashLevel_length (hp : 2 * pairs ≤ hashes.length) :
    (hashLevel sha256d pairs hashes).length = hashes.length := by
  rw [hashLevel_eq sha256d hp]
  simp only [List.length_append, List.length_map, List.length_range, List.length_drop]
  omega

/-- In front of the vector stands the level above. -/
theorem hashLevel_take (hp : 2 * pairs ≤ hashes.length) :
    (hashLevel sha256d pairs hashes).take pairs =
      pairUp (hashPair sha256d) (hashes.take (2 * pairs)) := by
  rw [hashLevel_eq sha256d hp, List.take_left' (by simp),
    pairUp_eq_map (hashPair sha256d) zeroHash (List.length_take_of_le hp)]
  refine List.map_congr_left ?_
  intro j hj
  have hlt := List.mem_range.mp hj
  simp only [List.getD_eq_getElem?_getD]
  rw [List.getElem?_take_of_lt (by omega), List.getElem?_take_of_lt (by omega)]

end Level

/-! ## Full levels -/

theorem calcRootLoop_pow (sha256d : Bytes → Hash32) (k : Nat) :
    ∀ {fuel : Nat} {hashes : List Hash32}, 2 ^ k ≤ fuel → 2 ^ k ≤ hashes.length →
      (calcRootLoop sha256d fuel (2 ^ k) hashes).getD 0 zeroHash =
        merkleRoot sha256d (hashes.take (2 ^ k)) := by
  induction k with
  | zero =>
    intro fuel hashes _ hlen
    rw [pow_zero] at hlen ⊢
    rw [calcRootLoop_one]
    rcases hashes with _ | ⟨a, rest⟩
    · simp at hlen
    · exact (root_singleton _ _ a).symm
  | succ k ih =>
    intro fuel hashes hfuel hlen
    have hpos := Nat.two_pow_pos k
    rw [Nat.pow_succ] at hfuel hlen ⊢
    obtain ⟨fuel, rfl⟩ : ∃ f, fuel = f + 1 := ⟨fuel - 1, by omega⟩
    have hpairs : 2 * 2 ^ k ≤ hashes.length := by omega
    have hhalf : (2 ^ k * 2 + 1) / 2 = 2 ^ k := by omega
    rw [calcRootLoop_succ sha256d fuel (by omega), hhalf, evened, if_neg (by omega),
      ih (by omega) (by rw [hashLevel_length sha256d hpairs]; omega),
      hashLevel_take sha256d hpairs, Nat.mul_comm 2 (2 ^ k)]
    exact root_pairUp _ _ (by rw [List.length_take_of_le hlen]; omega)

/-- With a power of two of leaves, or one leaf less, every level above the leaves is even. -/
theorem calcRoot_eq_merkleRoot (sha256d : Bytes → Hash32) {leaves : List Hash32} {k : Nat}
    (h : leaves.length = 2 ^ k ∨ leaves.length + 1 = 2 ^ k) (hne : 0 < leaves.length) :
    calcRoot sha256d leaves = merkleRoot sha256d leaves := by
  unfold calcRoot
  rcases h with h | h
  · have hroot := calcRootLoop_pow sha256d k h.ge h.ge
    rwa [← h, List.take_length] at hroot
  · cases k with
    | zero =>
      rw [pow_zero] at h
      omega
    | succ k =>
      rw [Nat.pow_succ] at h
      cases k with
      | zero =>
        have hone : leaves.length = 2 ^ 0 := by rw [pow_zero] at h ⊢; omega
        have hroot := calcRootLoop_pow sha256d 0 hone.ge hone.ge
        rwa [← hone, List.take_length] at hroot
      | succ k =>
        rw [Nat.pow_succ] at h
        have hpos := Nat.two_pow_pos k
        obtain ⟨fuel, hfuel⟩ : ∃ f, leaves.length = f + 1 := ⟨leaves.length - 1, by omega⟩
        have hodd : leaves.length % 2 = 1 := by omega
        have hhalf : (leaves.length + 1) / 2 = 2 ^ (k + 1) := by rw [Nat.pow_succ]; omega
        have hev : evened leaves.length leaves = leaves ++ [leaves.getLastD zeroHash] := if_pos hodd
        have hlen : 2 * 2 ^ (k + 1) = (leaves ++ [leaves.getLastD zeroHash]).length := by
          rw [List.length_append, List.length_singleton, Nat.pow_succ]
          omega
        nth_rewrite 1 [hfuel]
        rw [calcRootLoop_succ sha256d fuel (by omega), hhalf, hev,
          calcRootLoop_pow sha256d (k + 1) (by rw [Nat.pow_succ]; omega)
            (by rw [hashLevel_length sha256d hlen.le]; omega),
          hashLevel_take sha256d hlen.le, hlen, List.take_length,
          pairUp_repeat_last _ _ leaves hodd]
        exact root_pairUp _ _ (by omega)

/-! ## A later odd level -/

/-- The hash of a pair that is its right half. -/
def rightHalf (bytes : Bytes) : Hash32 := toArray 32 (bytes.drop 32)

theorem hashPair_rightHalf : hashPair rightHalf = fun _ b => b := by
  funext a b
  apply List.Vector.eq
  have hdrop : (a.toList ++ b.toList).drop 32 = b.toList := List.drop_left' a.toList_length
  simp only [hashPair, rightHalf, toArray, hdrop]
  exact List.take_left' b.toList_length

def mark : Hash32 := toArray 32 [1]

/-- Leaves of which the last one is marked. -/
def markedLeaves (n : Nat) : List Hash32 := List.replicate (n - 1) zeroHash ++ [mark]

theorem markedLeaves_length {n : Nat} (hn : 0 < n) : (markedLeaves n).length = n := by
  rw [markedLeaves, List.length_append, List.length_replicate, List.length_singleton]
  omega

theorem markedLeaves_getD {n i : Nat} (hi : i < n - 1) :
    (markedLeaves n).getD i zeroHash ≠ mark := by
  rw [markedLeaves, List.getD_append _ _ _ _ (by simpa using hi), List.getD_replicate _ hi]
  decide

theorem hashLevel_rightHalf_getD {pairs : Nat} {hashes : List Hash32}
    (hp : 2 * pairs ≤ hashes.length) (i : Nat) :
    (hashLevel rightHalf pairs hashes).getD i zeroHash =
      hashes.getD (if i < pairs then 2 * i + 1 else i) zeroHash := by
  rw [hashLevel_eq rightHalf hp, hashPair_rightHalf]
  split
  · rename_i hi
    rw [List.getD_append _ _ _ _ (by simpa using hi), List.getD_eq_getElem _ _ (by simpa using hi)]
    simp
  · rename_i hi
    rw [List.getD_append_right _ _ _ _ (by simp; omega), List.length_map, List.length_range,
      List.getD_eq_getElem?_getD, List.getElem?_drop, List.getD_eq_getElem?_getD]
    congr 2
    omega

theorem evened_getD {hashCount i : Nat} {hashes : List Hash32} (hi : i < hashes.length) :
    (evened hashCount hashes).getD i zeroHash = hashes.getD i zeroHash := by
  unfold evened
  split
  · exact List.getD_append _ _ _ _ hi
  · rfl

theorem evened_length (hashCount : Nat) (hashes : List Hash32) :
    (evened hashCount hashes).length = hashes.length + hashCount % 2 := by
  unfold evened
  split
  · rename_i hodd
    rw [List.length_append, List.length_singleton, hodd]
  · omega

/-- The mark is the last of the level, and above what the level below has left. -/
def MarkLast (hashCount : Nat) (hashes : List Hash32) : Prop :=
  hashCount < hashes.length ∧
    ∀ i, i < 2 * hashCount - 2 → i ≠ hashCount - 1 → hashes.getD i zeroHash ≠ mark

/-- The mark is neither in the level nor in what a later odd level can read. -/
def MarkGone (hashCount : Nat) (hashes : List Hash32) : Prop :=
  hashCount < hashes.length ∧
    ∀ i, i < hashCount ∨ i < 2 * hashCount - 2 → hashes.getD i zeroHash ≠ mark

/-- What a level is after the inner loop, read through the one below it. -/
theorem level_getD {hashCount : Nat} {hashes : List Hash32} (hlen : hashCount ≤ hashes.length)
    (i : Nat) :
    (hashLevel rightHalf ((hashCount + 1) / 2) (evened hashCount hashes)).getD i zeroHash =
      (evened hashCount hashes).getD (if i < (hashCount + 1) / 2 then 2 * i + 1 else i)
        zeroHash := by
  apply hashLevel_rightHalf_getD
  rw [evened_length]
  omega

theorem level_length {hashCount : Nat} {hashes : List Hash32} (hlen : hashCount ≤ hashes.length) :
    (hashLevel rightHalf ((hashCount + 1) / 2) (evened hashCount hashes)).length =
      hashes.length + hashCount % 2 := by
  rw [hashLevel_length rightHalf (by rw [evened_length]; omega), evened_length]

theorem markLast_leaves {n : Nat} (hn : 1 < n) :
    MarkLast ((n + 1) / 2) (hashLevel rightHalf ((n + 1) / 2) (evened n (markedLeaves n))) := by
  have hlen := markedLeaves_length (Nat.zero_lt_of_lt hn)
  refine ⟨by rw [level_length hlen.ge]; omega, ?_⟩
  intro i hi hne
  rw [level_getD hlen.ge, evened_getD (by split <;> omega)]
  apply markedLeaves_getD
  split <;> omega

theorem MarkLast.even {hashCount : Nat} {hashes : List Hash32} (h : MarkLast hashCount hashes)
    (hc : 1 < hashCount) (heven : hashCount % 2 = 0) :
    MarkLast ((hashCount + 1) / 2)
      (hashLevel rightHalf ((hashCount + 1) / 2) (evened hashCount hashes)) := by
  obtain ⟨hlen, hmark⟩ := h
  refine ⟨by rw [level_length hlen.le]; omega, ?_⟩
  intro i hi hne
  rw [level_getD hlen.le, evened_getD (by split <;> omega)]
  apply hmark <;> split <;> omega

/-- At an odd level the last element, which is the mark, is paired with another one. -/
theorem MarkLast.odd {hashCount : Nat} {hashes : List Hash32} (h : MarkLast hashCount hashes)
    (hc : 1 < hashCount) (hodd : hashCount % 2 = 1) :
    MarkGone ((hashCount + 1) / 2)
      (hashLevel rightHalf ((hashCount + 1) / 2) (evened hashCount hashes)) := by
  obtain ⟨hlen, hmark⟩ := h
  refine ⟨by rw [level_length hlen.le]; omega, ?_⟩
  intro i hi
  rw [level_getD hlen.le, evened_getD (by split <;> omega)]
  apply hmark <;> split <;> omega

theorem MarkGone.level {hashCount : Nat} {hashes : List Hash32} (h : MarkGone hashCount hashes)
    (hc : 1 < hashCount) :
    MarkGone ((hashCount + 1) / 2)
      (hashLevel rightHalf ((hashCount + 1) / 2) (evened hashCount hashes)) := by
  obtain ⟨hlen, hmark⟩ := h
  refine ⟨by rw [level_length hlen.le]; omega, ?_⟩
  intro i hi
  rw [level_getD hlen.le, evened_getD (by split <;> omega)]
  apply hmark
  split <;> omega

theorem MarkGone.root_ne {fuel hashCount : Nat} {hashes : List Hash32}
    (h : MarkGone hashCount hashes) (hpos : 0 < hashCount) (hfuel : hashCount ≤ fuel) :
    (calcRootLoop rightHalf fuel hashCount hashes).getD 0 zeroHash ≠ mark := by
  induction fuel generalizing hashCount hashes with
  | zero => omega
  | succ fuel ih =>
    by_cases hc : 1 < hashCount
    · rw [calcRootLoop_succ rightHalf fuel hc]
      exact ih (h.level hc) (by omega) (by omega)
    · obtain rfl : hashCount = 1 := by omega
      rw [calcRootLoop_one]
      exact h.2 0 (.inl hpos)

theorem MarkLast.root_ne {fuel hashCount : Nat} {hashes : List Hash32}
    (h : MarkLast hashCount hashes) (hpos : 0 < hashCount) (hfuel : hashCount ≤ fuel)
    (hpow : ∀ k, hashCount ≠ 2 ^ k) :
    (calcRootLoop rightHalf fuel hashCount hashes).getD 0 zeroHash ≠ mark := by
  induction fuel generalizing hashCount hashes with
  | zero => omega
  | succ fuel ih =>
    have hc : 1 < hashCount := by
      have hone := hpow 0
      rw [pow_zero] at hone
      omega
    rw [calcRootLoop_succ rightHalf fuel hc]
    rcases Nat.mod_two_eq_zero_or_one hashCount with heven | hodd
    · refine ih (h.even hc heven) (by omega) (by omega) ?_
      intro k hk
      have hdouble := hpow (k + 1)
      rw [Nat.pow_succ] at hdouble
      omega
    · exact (h.odd hc hodd).root_ne (by omega) (by omega)

/-- **When the root is the Bitcoin root.** For a number of leaves, `CalcRoot` computes the
Bitcoin merkle root for every hash function and all leaves if and only if the number, or the
one above it, is a power of two. -/
theorem calcRoot_correct_iff (n : Nat) (hn : 0 < n) :
    (∀ (sha256d : Bytes → Hash32) (leaves : List Hash32), leaves.length = n →
        calcRoot sha256d leaves = merkleRoot sha256d leaves) ↔
      ∃ k, n = 2 ^ k ∨ n + 1 = 2 ^ k := by
  constructor
  · intro h
    by_contra hpow
    push Not at hpow
    have hc : 1 < n := by
      have hone := (hpow 0).1
      rw [pow_zero] at hone
      omega
    have hlen := markedLeaves_length hn
    -- the mark is the right root, and the wrong pair at an odd level loses it
    have hright : merkleRoot rightHalf (markedLeaves n) = mark := by
      rw [merkleRoot, hashPair_rightHalf, root_right, markedLeaves, List.getLastD_concat]
    have hwrong : calcRoot rightHalf (markedLeaves n) ≠ mark := by
      obtain ⟨fuel, rfl⟩ : ∃ f, n = f + 1 := ⟨n - 1, by omega⟩
      rw [calcRoot, hlen, calcRootLoop_succ rightHalf fuel hc]
      refine (markLast_leaves hc).root_ne (by omega) (by omega) ?_
      intro k hk
      obtain ⟨heven, hodd⟩ := hpow (k + 1)
      rw [Nat.pow_succ] at heven hodd
      omega
    exact hwrong ((h rightHalf (markedLeaves n) hlen).trans hright)
  · rintro ⟨k, hk⟩ sha256d leaves rfl
    exact calcRoot_eq_merkleRoot sha256d hk hn

/-- Three leaves, the smallest odd level. -/
theorem calcRoot_correct_iff_three :
    (∃ k, 3 = 2 ^ k ∨ 3 + 1 = 2 ^ k) ∧
      ∀ (sha256d : Bytes → Hash32) (leaves : List Hash32), leaves.length = 3 →
        calcRoot sha256d leaves = merkleRoot sha256d leaves :=
  ⟨⟨2, .inr rfl⟩, (calcRoot_correct_iff 3 (by decide)).mpr ⟨2, .inr rfl⟩⟩

/-- Five leaves: the third of the three hashes above them is paired with the fourth leaf. -/
theorem calcRoot_five_leaves :
    calcRoot rightHalf (markedLeaves 5) = zeroHash ∧
      merkleRoot rightHalf (markedLeaves 5) = mark ∧
      calcRoot rightHalf (markedLeaves 5) ≠ merkleRoot rightHalf (markedLeaves 5) := by
  have hcalc : calcRoot rightHalf (markedLeaves 5) = zeroHash := by decide +kernel
  have hroot : merkleRoot rightHalf (markedLeaves 5) = mark := by
    rw [merkleRoot, hashPair_rightHalf, root_right]
    rfl
  refine ⟨hcalc, hroot, ?_⟩
  rw [hcalc, hroot]
  decide

end SickPool.Crypto.MerkleTree
