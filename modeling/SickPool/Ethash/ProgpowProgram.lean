import SickPool.Ethash.Progpow

/-!
# The program of a period

What a round of ProgPoW does to the registers is drawn from a generator that depends on the
period alone: `hash_mix` hands its state to each round by value. Here the operations that a
state draws are a list, the loop of a round is shown to run that list, and the list is shown
to write each register once.
-/
namespace SickPool.Ethash

/-- One operation of the loop with what was drawn for it. -/
inductive Op where
  | cache (src dst : Reg) (sel : UInt32)
  | math (src1 src2 dst : Reg) (sel1 sel2 : UInt32)
deriving DecidableEq

namespace Op

def dst : Op → Reg
  | cache _ dst _ => dst
  | math _ _ dst _ _ => dst

/-- The register whose value an access to the L1 cache takes as offset. -/
def cacheSource : Op → Option Reg
  | cache src _ _ => some src
  | math .. => none

def SourcesDiffer : Op → Prop
  | cache .. => True
  | math src1 src2 _ _ _ => src1 ≠ src2

def run (l1Cache : Nat → UInt32) (mix : Mix) : Op → Mix
  | cache src dst sel =>
    mix.map fun row => mergeInto row dst (l1Cache ((row.get src).toNat % l1CacheNumItems)) sel
  | math src1 src2 dst sel1 sel2 =>
    mix.map fun row => mergeInto row dst (randomMath (row.get src1) (row.get src2) sel1) sel2

end Op

def drawCache (s : MixRngState) : Op × MixRngState :=
  let src := s.nextSrc
  let dst := src.2.nextDst
  let sel := dst.2.draw
  (.cache src.1 dst.1 sel.1, sel.2)

def drawMath (s : MixRngState) : Op × MixRngState :=
  let rnd := s.draw
  let src := mathSources rnd.1
  let sel1 := rnd.2.draw
  let dst := sel1.2.nextDst
  let sel2 := dst.2.draw
  (.math (Fin.ofNat 32 src.1) (Fin.ofNat 32 src.2) dst.1 sel1.1 sel2.1, sel2.2)

/-- Append what `draw` draws. -/
def push (draw : MixRngState → Op × MixRngState) (acc : List Op × MixRngState) :
    List Op × MixRngState :=
  (acc.1 ++ [(draw acc.2).1], (draw acc.2).2)

/-- What one turn of the loop draws. -/
def drawTurn (acc : List Op × MixRngState) (i : Nat) : List Op × MixRngState :=
  let acc := if i < numCacheAccesses then push drawCache acc else acc
  if i < numMathOperations then push drawMath acc else acc

/-- What the first `n` turns draw. -/
def programUpTo (s : MixRngState) (n : Nat) : List Op × MixRngState :=
  (List.range n).foldl drawTurn ([], s)

def program (s : MixRngState) : List Op :=
  (programUpTo s (max numCacheAccesses numMathOperations)).1

section Loop

variable (l1Cache : Nat → UInt32) (mix : Mix)

/-- The registers after the operations drawn so far, with the state that drew them. -/
def runDrawn (acc : List Op × MixRngState) : Mix × MixRngState :=
  (acc.1.foldl (Op.run l1Cache) mix, acc.2)

theorem cacheAccess_runDrawn (acc : List Op × MixRngState) :
    cacheAccess l1Cache (runDrawn l1Cache mix acc).1 (runDrawn l1Cache mix acc).2 =
      runDrawn l1Cache mix (push drawCache acc) := by
  rw [push, runDrawn, runDrawn, List.foldl_append]
  rfl

theorem mathOperation_runDrawn (acc : List Op × MixRngState) :
    mathOperation (runDrawn l1Cache mix acc).1 (runDrawn l1Cache mix acc).2 =
      runDrawn l1Cache mix (push drawMath acc) := by
  rw [push, runDrawn, runDrawn, List.foldl_append]
  rfl

theorem operation_runDrawn (acc : List Op × MixRngState) (i : Nat) :
    operation l1Cache (runDrawn l1Cache mix acc) i = runDrawn l1Cache mix (drawTurn acc i) := by
  unfold operation drawTurn
  by_cases hc : i < numCacheAccesses
  · simp only [if_pos hc, cacheAccess_runDrawn, mathOperation_runDrawn]
    exact (apply_ite (runDrawn l1Cache mix) _ _ _).symm
  · simp only [if_neg hc, mathOperation_runDrawn]
    exact (apply_ite (runDrawn l1Cache mix) _ _ _).symm

theorem operations_eq_runDrawn (s : MixRngState) : operations l1Cache mix s =
    runDrawn l1Cache mix (programUpTo s (max numCacheAccesses numMathOperations)) := by
  have hloop : ∀ (l : List Nat) (acc : List Op × MixRngState),
      l.foldl (operation l1Cache) (runDrawn l1Cache mix acc) =
        runDrawn l1Cache mix (l.foldl drawTurn acc) := by
    intro l
    induction l with
    | nil => intro acc; rfl
    | cons i l ih =>
      intro acc
      rw [List.foldl_cons, List.foldl_cons, operation_runDrawn, ih]
  have hstart : (mix, s) = runDrawn l1Cache mix ([], s) := rfl
  rw [operations, hstart, hloop, programUpTo]

/-- The loop of a round runs the operations its state draws. -/
theorem operations_eq_program (s : MixRngState) :
    (operations l1Cache mix s).1 = (program s).foldl (Op.run l1Cache) mix := by
  rw [operations_eq_runDrawn, program, runDrawn]

theorem operations_state (s : MixRngState) : (operations l1Cache mix s).2 =
    (programUpTo s (max numCacheAccesses numMathOperations)).2 := by
  rw [operations_eq_runDrawn, runDrawn]

end Loop

theorem mathSources_lt (rnd : UInt32) : (mathSources rnd).1 < 32 ∧ (mathSources rnd).2 < 32 := by
  unfold mathSources
  constructor
  · simp only
    omega
  · simp only
    split <;> omega

theorem mathSources_ne (rnd : UInt32) : (mathSources rnd).1 ≠ (mathSources rnd).2 := by
  unfold mathSources
  simp only
  split <;> omega

/-- What is known of the operations drawn from a state: destinations and cache sources follow
the sequences of the state, from its counters on. -/
structure Drawn (s : MixRngState) (acc : List Op × MixRngState) : Prop where
  dstSeq : acc.2.dstSeq = s.dstSeq
  srcSeq : acc.2.srcSeq = s.srcSeq
  dstCounter : acc.2.dstCounter = s.dstCounter + acc.1.length
  srcCounter : acc.2.srcCounter = s.srcCounter + (acc.1.filterMap Op.cacheSource).length
  dsts : acc.1.map Op.dst =
    (List.range acc.1.length).map fun j => s.dstSeq.get (Fin.ofNat 32 (s.dstCounter + j))
  srcs : acc.1.filterMap Op.cacheSource = (List.range (acc.1.filterMap Op.cacheSource).length).map
    fun j => s.srcSeq.get (Fin.ofNat 32 (s.srcCounter + j))
  differ : ∀ op ∈ acc.1, op.SourcesDiffer

theorem Drawn.nil (s : MixRngState) : Drawn s ([], s) where
  dstSeq := rfl
  srcSeq := rfl
  dstCounter := rfl
  srcCounter := rfl
  dsts := rfl
  srcs := rfl
  differ := by simp

theorem Drawn.pushCache {s : MixRngState} {acc : List Op × MixRngState} (h : Drawn s acc) :
    Drawn s (push drawCache acc) where
  dstSeq := h.dstSeq
  srcSeq := h.srcSeq
  dstCounter := by
    show acc.2.dstCounter + 1 = _
    rw [h.dstCounter, push, List.length_append]
    rfl
  srcCounter := by
    show acc.2.srcCounter + 1 = _
    rw [h.srcCounter, push, List.filterMap_append, List.length_append]
    rfl
  dsts := by
    rw [push, List.map_append, h.dsts, List.length_append, List.length_singleton, List.range_succ,
      List.map_append, List.map_singleton, List.map_singleton, ← h.dstCounter, ← h.dstSeq]
    rfl
  srcs := by
    have hone : [(drawCache acc.2).1].filterMap Op.cacheSource =
        [acc.2.srcSeq.get (Fin.ofNat 32 acc.2.srcCounter)] := rfl
    rw [push, List.filterMap_append, hone, List.length_append, List.length_singleton,
      List.range_succ, List.map_append, List.map_singleton, ← h.srcs, ← h.srcCounter, ← h.srcSeq]
  differ := by
    intro op hop
    rcases List.mem_append.mp hop with hop | hop
    · exact h.differ op hop
    · rw [List.mem_singleton.mp hop]
      trivial

theorem Drawn.pushMath {s : MixRngState} {acc : List Op × MixRngState} (h : Drawn s acc) :
    Drawn s (push drawMath acc) where
  dstSeq := h.dstSeq
  srcSeq := h.srcSeq
  dstCounter := by
    show acc.2.dstCounter + 1 = _
    rw [h.dstCounter, push, List.length_append]
    rfl
  srcCounter := by
    show acc.2.srcCounter = _
    rw [h.srcCounter, push, List.filterMap_append, List.length_append]
    rfl
  dsts := by
    rw [push, List.map_append, h.dsts, List.length_append, List.length_singleton, List.range_succ,
      List.map_append, List.map_singleton, List.map_singleton, ← h.dstCounter, ← h.dstSeq]
    rfl
  srcs := by
    have hnone : [(drawMath acc.2).1].filterMap Op.cacheSource = [] := rfl
    rw [push, List.filterMap_append, hnone, List.append_nil]
    exact h.srcs
  differ := by
    intro op hop
    rcases List.mem_append.mp hop with hop | hop
    · exact h.differ op hop
    · rw [List.mem_singleton.mp hop]
      intro heq
      have hlt := mathSources_lt acc.2.draw.1
      have hval := congrArg Fin.val heq
      rw [Fin.val_ofNat, Fin.val_ofNat, Nat.mod_eq_of_lt hlt.1, Nat.mod_eq_of_lt hlt.2] at hval
      exact mathSources_ne _ hval

theorem Drawn.turn {s : MixRngState} {acc : List Op × MixRngState} (h : Drawn s acc) (i : Nat) :
    Drawn s (drawTurn acc i) := by
  unfold drawTurn
  by_cases hc : i < numCacheAccesses <;> by_cases hm : i < numMathOperations
  · simp only [if_pos hc, if_pos hm]
    exact h.pushCache.pushMath
  · simp only [if_pos hc, if_neg hm]
    exact h.pushCache
  · simp only [if_neg hc, if_pos hm]
    exact h.pushMath
  · simp only [if_neg hc, if_neg hm]
    exact h

theorem programUpTo_succ (s : MixRngState) (n : Nat) :
    programUpTo s (n + 1) = drawTurn (programUpTo s n) n := by
  rw [programUpTo, List.range_succ, List.foldl_append]
  rfl

theorem programUpTo_drawn (s : MixRngState) (n : Nat) : Drawn s (programUpTo s n) := by
  induction n with
  | zero => exact Drawn.nil s
  | succ n ih =>
    rw [programUpTo_succ]
    exact ih.turn n

theorem drawTurn_length (acc : List Op × MixRngState) (i : Nat) :
    (drawTurn acc i).1.length = acc.1.length + (if i < numCacheAccesses then 1 else 0) +
      (if i < numMathOperations then 1 else 0) := by
  unfold drawTurn push
  by_cases hc : i < numCacheAccesses <;> by_cases hm : i < numMathOperations <;> simp [hc, hm]

theorem drawTurn_cacheSources (acc : List Op × MixRngState) (i : Nat) :
    ((drawTurn acc i).1.filterMap Op.cacheSource).length =
      (acc.1.filterMap Op.cacheSource).length + (if i < numCacheAccesses then 1 else 0) := by
  unfold drawTurn push
  by_cases hc : i < numCacheAccesses <;> by_cases hm : i < numMathOperations <;>
    simp [hc, hm, List.filterMap_append, drawCache, drawMath, Op.cacheSource]

theorem programUpTo_length (s : MixRngState) (n : Nat) :
    (programUpTo s n).1.length = min n numCacheAccesses + min n numMathOperations := by
  induction n with
  | zero => simp [programUpTo]
  | succ n ih =>
    rw [programUpTo_succ, drawTurn_length, ih]
    split <;> split <;> omega

theorem programUpTo_cacheSources (s : MixRngState) (n : Nat) :
    ((programUpTo s n).1.filterMap Op.cacheSource).length = min n numCacheAccesses := by
  induction n with
  | zero => simp [programUpTo]
  | succ n ih =>
    rw [programUpTo_succ, drawTurn_cacheSources, ih]
    split <;> omega

theorem get_ofNat_eq_toList {seq : Vector Reg 32} {k : Nat} (hk : k < seq.toList.length) :
    seq.get (Fin.ofNat 32 k) = seq.toList[k] := by
  have hk' : k < 32 := by simpa using hk
  have hofNat : Fin.ofNat 32 k = ⟨k, hk'⟩ := Fin.ext (Nat.mod_eq_of_lt hk')
  rw [hofNat, Vector.getElem_toList]
  rfl

/-- A sequence of registers without a repetition, read at its first positions. -/
theorem nodup_map_get {seq : Vector Reg 32} (h : seq.toList.Nodup) {n : Nat} (hn : n ≤ 32) :
    ((List.range n).map fun j => seq.get (Fin.ofNat 32 (0 + j))).Nodup := by
  refine List.Nodup.map_on ?_ List.nodup_range
  intro i hi j hj hij
  have hi' : i < seq.toList.length := by
    rw [List.mem_range] at hi
    simp only [Vector.length_toList]
    omega
  have hj' : j < seq.toList.length := by
    rw [List.mem_range] at hj
    simp only [Vector.length_toList]
    omega
  rw [Nat.zero_add, Nat.zero_add, get_ofNat_eq_toList hi', get_ofNat_eq_toList hj'] at hij
  exact h.getElem_inj_iff.mp hij

/-- Swaps keep a sequence a permutation of all registers. -/
theorem swapRegs_perm (seq : Vector Reg 32) (a b : Reg) :
    (swapRegs seq a b).toList.Perm seq.toList :=
  Array.perm_iff_toList_perm.mp (Vector.swap_perm a.isLt b.isLt).toArray

theorem shuffle_perm (counts : List Nat) (s : MixRngState) :
    (counts.foldl shuffleStep s).dstSeq.toList.Perm s.dstSeq.toList ∧
      (counts.foldl shuffleStep s).srcSeq.toList.Perm s.srcSeq.toList := by
  induction counts generalizing s with
  | nil => exact ⟨.refl _, .refl _⟩
  | cons i counts ih =>
    obtain ⟨hdst, hsrc⟩ := ih (shuffleStep s i)
    exact ⟨hdst.trans (swapRegs_perm _ _ _), hsrc.trans (swapRegs_perm _ _ _)⟩

theorem shuffle_counters (counts : List Nat) (s : MixRngState) :
    (counts.foldl shuffleStep s).dstCounter = s.dstCounter ∧
      (counts.foldl shuffleStep s).srcCounter = s.srcCounter := by
  induction counts generalizing s with
  | nil => exact ⟨rfl, rfl⟩
  | cons i counts ih => exact ih (shuffleStep s i)

theorem init_nodup (seed : UInt64) :
    (MixRngState.init seed).dstSeq.toList.Nodup ∧ (MixRngState.init seed).srcSeq.toList.Nodup := by
  have hid : (Vector.finRange 32).toList.Nodup := by
    rw [show (Vector.finRange 32).toList = List.finRange 32 by decide]
    exact List.nodup_finRange 32
  obtain ⟨hdst, hsrc⟩ := shuffle_perm shuffleCounts
    { rng := seededRng seed, dstCounter := 0, dstSeq := Vector.finRange 32,
      srcCounter := 0, srcSeq := Vector.finRange 32 }
  exact ⟨hdst.symm.nodup hid, hsrc.symm.nodup hid⟩

/-- A list of 32 registers without a repetition names every register. -/
theorem perm_finRange_of_nodup {l : List Reg} (hl : l.Nodup) (hlen : l.length = 32) :
    l.Perm (List.finRange 32) := by
  refine (List.subperm_of_subset hl (fun r _ => List.mem_finRange r)).perm_of_length_le ?_
  rw [hlen, List.length_finRange]

/-- The program of a period. For every seed the loop of a round, on any registers and any L1
cache, runs the same 32 operations; they write every register of a lane exactly once; the 12
accesses to the L1 cache take their offsets from 12 different registers, and the two sources
of a math operation are never the same register. -/
theorem period_program (seed : UInt64) :
    (∀ (l1Cache : Nat → UInt32) (mix : Mix), (operations l1Cache mix (MixRngState.init seed)).1 =
      (program (MixRngState.init seed)).foldl (Op.run l1Cache) mix) ∧
    ((program (MixRngState.init seed)).map Op.dst).Perm (List.finRange 32) ∧
    ((program (MixRngState.init seed)).filterMap Op.cacheSource).length = 12 ∧
    ((program (MixRngState.init seed)).filterMap Op.cacheSource).Nodup ∧
    ∀ op ∈ program (MixRngState.init seed), op.SourcesDiffer := by
  have hdrawn := programUpTo_drawn (MixRngState.init seed) (max numCacheAccesses numMathOperations)
  have hlen := programUpTo_length (MixRngState.init seed) (max numCacheAccesses numMathOperations)
  have hcache := programUpTo_cacheSources (MixRngState.init seed)
    (max numCacheAccesses numMathOperations)
  obtain ⟨hdst0, hsrc0⟩ := shuffle_counters shuffleCounts
    { rng := seededRng seed, dstCounter := 0, dstSeq := Vector.finRange 32,
      srcCounter := 0, srcSeq := Vector.finRange 32 }
  obtain ⟨hdst, hsrc⟩ := init_nodup seed
  refine ⟨fun l1Cache mix => operations_eq_program l1Cache mix _, ?_, hcache, ?_, hdrawn.differ⟩
  · refine perm_finRange_of_nodup ?_ ?_
    · rw [program, hdrawn.dsts, hlen, show (MixRngState.init seed).dstCounter = 0 from hdst0]
      exact nodup_map_get hdst (by decide)
    · rw [List.length_map, program, hlen]
      decide
  · rw [program, hdrawn.srcs, hcache, show (MixRngState.init seed).srcCounter = 0 from hsrc0]
    exact nodup_map_get hsrc (by decide)

/-- The two shift counts of a rotation by 1 to 31. -/
theorem rotation_counts {k : Nat} (h : k < 31) :
    ((UInt32.ofNat (k + 1) &&& 31).toBitVec % 32).toNat = k + 1 ∧
      (((0 - (UInt32.ofNat (k + 1) &&& 31)) &&& 31).toBitVec % 32).toNat = 32 - (k + 1) := by
  interval_cases k <;> decide

theorem rotl32_toBitVec (n : UInt32) {k : Nat} (h : k < 31) :
    (rotl32 n (UInt32.ofNat (k + 1))).toBitVec = n.toBitVec.rotateLeft (k + 1) := by
  rw [rotl32, UInt32.toBitVec_or, UInt32.toBitVec_shiftLeft, UInt32.toBitVec_shiftRight,
    BitVec.shiftLeft_eq', BitVec.ushiftRight_eq', (rotation_counts h).1, (rotation_counts h).2,
    BitVec.rotateLeft_def, Nat.mod_eq_of_lt (by omega)]

theorem rotr32_toBitVec (n : UInt32) {k : Nat} (h : k < 31) :
    (rotr32 n (UInt32.ofNat (k + 1))).toBitVec = n.toBitVec.rotateRight (k + 1) := by
  rw [rotr32, UInt32.toBitVec_or, UInt32.toBitVec_shiftLeft, UInt32.toBitVec_shiftRight,
    BitVec.shiftLeft_eq', BitVec.ushiftRight_eq', (rotation_counts h).1, (rotation_counts h).2,
    BitVec.rotateRight_def, Nat.mod_eq_of_lt (by omega)]

theorem rotateLeft_injective {w r : Nat} (hr : r < w) :
    Function.Injective fun x : BitVec w => x.rotateLeft r := by
  intro x y h
  apply BitVec.eq_of_getLsbD_eq
  intro i hi
  -- bit `i` is found `r` places further on, or at the bottom if that is past the top
  by_cases hlt : i + r < w
  · have hbit := congrArg (fun z : BitVec w => z.getLsbD (i + r)) h
    simp only [BitVec.getLsbD_rotateLeft, Nat.mod_eq_of_lt hr] at hbit
    simpa [show ¬i + r < r by omega, hlt] using hbit
  · have hbit := congrArg (fun z : BitVec w => z.getLsbD (i + r - w)) h
    simp only [BitVec.getLsbD_rotateLeft, Nat.mod_eq_of_lt hr] at hbit
    have hback : w - r + (i + r - w) = i := by omega
    simpa [show i + r - w < r by omega, hback] using hbit

theorem rotateRight_injective {w r : Nat} (hr : r < w) :
    Function.Injective fun x : BitVec w => x.rotateRight r := by
  intro x y h
  apply BitVec.eq_of_getLsbD_eq
  intro i hi
  by_cases hlt : r ≤ i
  · have hbit := congrArg (fun z : BitVec w => z.getLsbD (i - r)) h
    simp only [BitVec.getLsbD_rotateRight, Nat.mod_eq_of_lt hr] at hbit
    simpa [show i - r < w - r by omega, show r + (i - r) = i by omega] using hbit
  · have hbit := congrArg (fun z : BitVec w => z.getLsbD (w - r + i)) h
    simp only [BitVec.getLsbD_rotateRight, Nat.mod_eq_of_lt hr] at hbit
    simpa [show w - r + i < w by omega] using hbit

theorem mul_33_injective : Function.Injective fun a : UInt32 => a * 33 := by
  intro a b h
  have hinv : (33 : UInt32) * 1041204193 = 1 := by decide
  have hmul : a * 33 * 1041204193 = b * 33 * 1041204193 := congrArg (· * 1041204193) h
  rwa [UInt32.mul_assoc, UInt32.mul_assoc, hinv, UInt32.mul_one, UInt32.mul_one] at hmul

theorem xor_right_injective (b : UInt32) : Function.Injective fun a : UInt32 => a ^^^ b := by
  intro x y h
  have hxor : x ^^^ b ^^^ b = y ^^^ b ^^^ b := congrArg (· ^^^ b) h
  rwa [UInt32.xor_assoc, UInt32.xor_assoc, UInt32.xor_self, UInt32.xor_zero, UInt32.xor_zero] at hxor

/-- A register keeps what it held: whatever is merged into it, and by whichever selector, two
different values stay different. -/
theorem randomMerge_injective (b selector : UInt32) :
    Function.Injective fun a => randomMerge a b selector := by
  have hx : (selector >>> 16).toNat % 31 < 31 := Nat.mod_lt _ (by decide)
  intro a a' h
  simp only [randomMerge] at h
  split at h
  · exact mul_33_injective ((UInt32.add_left_inj _).mp h)
  · exact xor_right_injective b (mul_33_injective h)
  · have hrot := congrArg UInt32.toBitVec (xor_right_injective b h)
    rw [rotl32_toBitVec _ hx, rotl32_toBitVec _ hx] at hrot
    exact UInt32.toBitVec_inj.mp (rotateLeft_injective (by omega) hrot)
  · have hrot := congrArg UInt32.toBitVec (xor_right_injective b h)
    rw [rotr32_toBitVec _ hx, rotr32_toBitVec _ hx] at hrot
    exact UInt32.toBitVec_inj.mp (rotateRight_injective (by omega) hrot)

theorem mergeInto_get_of_ne {row : Row} {dst k : Reg} (b sel : UInt32) (h : k ≠ dst) :
    (mergeInto row dst b sel).get k = row.get k :=
  Vector.getElem_set_ne dst.isLt k.isLt (fun he => h (Fin.ext he.symm))

theorem mergeInto_get_self (row : Row) (dst : Reg) (b sel : UInt32) :
    (mergeInto row dst b sel).get dst = randomMerge (row.get dst) b sel :=
  Vector.getElem_set_self dst.isLt

theorem row_ext {row row' : Row} (h : ∀ k, row.get k = row'.get k) : row = row' :=
  Vector.ext fun k hk => h ⟨k, hk⟩

/-- Two rows that are the same after a merge of the same word were the same before it. -/
theorem mergeInto_cancel {row row' : Row} {dst : Reg} {b sel : UInt32}
    (h : mergeInto row dst b sel = mergeInto row' dst b sel) : row = row' := by
  apply row_ext
  intro k
  by_cases hk : k = dst
  · subst hk
    have hget := congrArg (fun r : Row => r.get k) h
    simp only [mergeInto_get_self] at hget
    exact randomMerge_injective b sel hget
  · rw [← mergeInto_get_of_ne b sel hk, h, mergeInto_get_of_ne b sel hk]

/-- The operation does not read the register it writes. -/
def Op.Apart : Op → Prop
  | .cache src dst _ => src ≠ dst
  | .math src1 src2 dst _ _ => src1 ≠ dst ∧ src2 ≠ dst

instance Op.decidableApart : DecidablePred Op.Apart
  | .cache src dst _ => inferInstanceAs (Decidable (src ≠ dst))
  | .math src1 src2 dst _ _ => inferInstanceAs (Decidable (src1 ≠ dst ∧ src2 ≠ dst))

theorem Op.run_injective (l1Cache : Nat → UInt32) {op : Op} (h : op.Apart) :
    Function.Injective fun mix => op.run l1Cache mix := by
  cases op with
  | cache src dst sel =>
    intro mix mix' hrun
    refine Vector.map_inj_right ?_ |>.mp hrun
    intro row row' hrow
    have hsrc : row.get src = row'.get src := by
      rw [← mergeInto_get_of_ne _ sel h, hrow, mergeInto_get_of_ne _ sel h]
    simp only [hsrc] at hrow
    exact mergeInto_cancel hrow
  | math src1 src2 dst sel1 sel2 =>
    intro mix mix' hrun
    refine Vector.map_inj_right ?_ |>.mp hrun
    intro row row' hrow
    have hsrc1 : row.get src1 = row'.get src1 := by
      rw [← mergeInto_get_of_ne _ sel2 h.1, hrow, mergeInto_get_of_ne _ sel2 h.1]
    have hsrc2 : row.get src2 = row'.get src2 := by
      rw [← mergeInto_get_of_ne _ sel2 h.2, hrow, mergeInto_get_of_ne _ sel2 h.2]
    simp only [hsrc1, hsrc2] at hrow
    exact mergeInto_cancel hrow

theorem foldl_mergeInto_cancel {ι : Type*} (l : List ι) (dst : ι → Reg) (b sel : ι → UInt32)
    {row row' : Row}
    (h : l.foldl (fun row p => mergeInto row (dst p) (b p) (sel p)) row =
      l.foldl (fun row p => mergeInto row (dst p) (b p) (sel p)) row') : row = row' := by
  induction l generalizing row row' with
  | nil => exact h
  | cons p l ih => exact mergeInto_cancel (ih h)

theorem dagMerge_injective (item : Hash2048) (r : Nat) (patterns : List (Reg × UInt32)) :
    Function.Injective (dagMerge item r patterns) := by
  intro mix mix' h
  apply Vector.ext
  intro l hl
  have hlane := congrArg (fun m : Mix => m[l]) h
  simp only [dagMerge, Vector.getElem_ofFn] at hlane
  exact foldl_mergeInto_cancel _ _ _ _ hlane

theorem foldl_run_injective (l1Cache : Nat → UInt32) {ops : List Op} (h : ∀ op ∈ ops, op.Apart) :
    Function.Injective fun mix => ops.foldl (Op.run l1Cache) mix := by
  induction ops with
  | nil => exact fun _ _ heq => heq
  | cons op ops ih =>
    intro mix mix' heq
    have htail := ih (fun o ho => h o (List.mem_cons_of_mem _ ho)) heq
    exact Op.run_injective l1Cache (h op List.mem_cons_self) htail

/-- Merging keeps the entropy of the registers, however little there is in what is merged: when
no operation of the period reads the register it writes, a round takes different registers to
different registers, whatever the L1 cache and the dataset item hold. -/
theorem roundWith_injective (l1Cache : Nat → UInt32) (item : Hash2048) (r : Nat) (seed : UInt64)
    (h : ∀ op ∈ program (MixRngState.init seed), op.Apart) :
    Function.Injective fun mix => roundWith l1Cache item r mix (MixRngState.init seed) := by
  intro mix mix' heq
  simp only [roundWith, operations_eq_program, operations_state] at heq
  exact foldl_run_injective l1Cache h (dagMerge_injective _ _ _ heq)

/-- The first 50 blocks are such a period. -/
theorem roundWith_injective_first_period : Function.Injective fun mix =>
    roundWith (fun _ => 0) (Vector.replicate 64 0) 0 mix (MixRngState.init 0) :=
  roundWith_injective _ _ _ 0 (by decide +kernel)

end SickPool.Ethash
