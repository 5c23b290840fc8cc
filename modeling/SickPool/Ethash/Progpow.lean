import SickPool.Ethash.Dataset

/-!
# ProgPoW

`ethash/progpow.cpp` with `kiss99.hpp` and `bit_manipulation.h`. The mix is one row of
registers for each lane. A round looks up one dataset item; where it comes from, and what the
L1 cache holds then, are arguments here, so that the same round serves the light context and
the full one.
-/
namespace SickPool.Ethash

open SickPool.Library.Bytes (beNat)

def rotl32 (n : UInt32) (c : UInt32) : UInt32 :=
  (n <<< (c &&& 31)) ||| (n >>> ((0 - (c &&& 31)) &&& 31))

def rotr32 (n : UInt32) (c : UInt32) : UInt32 :=
  (n >>> (c &&& 31)) ||| (n <<< ((0 - (c &&& 31)) &&& 31))

def clz32 (x : UInt32) : UInt32 := if x = 0 then 32 else UInt32.ofNat (31 - x.toNat.log2)

def popcount32 (x : UInt32) : UInt32 :=
  UInt32.ofNat ((List.range 32).filter (fun i => x.toNat.testBit i)).length

def mulHi32 (x y : UInt32) : UInt32 := UInt32.ofNat (x.toNat * y.toNat / 2 ^ 32)

structure Kiss99 where
  z : UInt32
  w : UInt32
  jsr : UInt32
  jcong : UInt32

/-- `operator()`: the number drawn, and the generator after it. -/
def Kiss99.next (g : Kiss99) : UInt32 × Kiss99 :=
  let z := (36969 : UInt32) * (g.z &&& (0xffff : UInt32)) + (g.z >>> (16 : UInt32))
  let w := (18000 : UInt32) * (g.w &&& (0xffff : UInt32)) + (g.w >>> (16 : UInt32))
  let jcong : UInt32 := 69069 * g.jcong + 1234567
  let jsr := g.jsr ^^^ (g.jsr <<< 17)
  let jsr := jsr ^^^ (jsr >>> 13)
  let jsr := jsr ^^^ (jsr <<< 5)
  ((((z <<< 16) + w) ^^^ jcong) + jsr, { z, w, jsr, jcong })

/-- The draw made after `k` others. -/
def Kiss99.drawAt (g : Kiss99) : Nat → UInt32
  | 0 => g.next.1
  | k + 1 => Kiss99.drawAt g.next.2 k

/-- `num_regs` and `num_lanes`. -/
abbrev Reg := Fin 32
abbrev Lane := Fin 16
abbrev Row := Vector UInt32 32
abbrev Mix := Vector Row 16

structure MixRngState where
  rng : Kiss99
  dstCounter : Nat
  dstSeq : Vector Reg 32
  srcCounter : Nat
  srcSeq : Vector Reg 32

def MixRngState.nextDst (s : MixRngState) : Reg × MixRngState :=
  (s.dstSeq.get (Fin.ofNat 32 s.dstCounter), { s with dstCounter := s.dstCounter + 1 })

def MixRngState.nextSrc (s : MixRngState) : Reg × MixRngState :=
  (s.srcSeq.get (Fin.ofNat 32 s.srcCounter), { s with srcCounter := s.srcCounter + 1 })

def MixRngState.draw (s : MixRngState) : UInt32 × MixRngState :=
  (s.rng.next.1, { s with rng := s.rng.next.2 })

/-- `std::swap(seq[a], seq[b])`. -/
def swapRegs (seq : Vector Reg 32) (a b : Reg) : Vector Reg 32 := seq.swap a b a.isLt b.isLt

/-- One turn of the shuffle, with `i` registers left: a draw and a swap for the destinations,
then one each for the sources. -/
def shuffleStep (s : MixRngState) (i : Nat) : MixRngState :=
  let r := s.draw
  let q := r.2.draw
  { q.2 with
    dstSeq := swapRegs s.dstSeq (Fin.ofNat 32 (i - 1)) (Fin.ofNat 32 (r.1.toNat % i))
    srcSeq := swapRegs s.srcSeq (Fin.ofNat 32 (i - 1)) (Fin.ofNat 32 (q.1.toNat % i)) }

/-- The generator that `mix_rng_state(seed)` starts from. -/
def seededRng (seed : UInt64) : Kiss99 :=
  let lo := seed.toUInt32
  let hi := (seed >>> 32).toUInt32
  let z := fnv1a fnvOffsetBasis lo
  let w := fnv1a z hi
  let jsr := fnv1a w lo
  { z, w, jsr, jcong := fnv1a jsr hi }

/-- The loop `for (i = num_regs; i > 1; --i)`. -/
def shuffleCounts : List Nat := (List.range 31).map (32 - ·)

def MixRngState.init (seed : UInt64) : MixRngState :=
  shuffleCounts.foldl shuffleStep
    { rng := seededRng seed, dstCounter := 0, dstSeq := Vector.finRange 32,
      srcCounter := 0, srcSeq := Vector.finRange 32 }

def randomMath (a b selector : UInt32) : UInt32 :=
  match selector.toNat % 11 with
  | 3 => a * b
  | 4 => mulHi32 a b
  | 5 => min a b
  | 6 => rotl32 a b
  | 7 => rotr32 a b
  | 8 => a &&& b
  | 9 => a ||| b
  | 10 => a ^^^ b
  | 0 => clz32 a + clz32 b
  | 1 => popcount32 a + popcount32 b
  | _ => a + b

def randomMerge (a b selector : UInt32) : UInt32 :=
  let x := UInt32.ofNat ((selector >>> 16).toNat % 31 + 1)
  match selector.toNat % 4 with
  | 0 => a * 33 + b
  | 1 => (a ^^^ b) * 33
  | 2 => rotl32 a x ^^^ b
  | _ => rotr32 a x ^^^ b

/-- `random_merge(row[dst], b, selector)`. -/
def mergeInto (row : Row) (dst : Reg) (b selector : UInt32) : Row :=
  row.set dst (randomMerge (row.get dst) b selector) dst.isLt

def l1CacheNumItems : Nat := 4096

/-- Random access to cached memory, in every lane. -/
def cacheAccess (l1Cache : Nat → UInt32) (mix : Mix) (s : MixRngState) : Mix × MixRngState :=
  let src := s.nextSrc
  let dst := src.2.nextDst
  let sel := dst.2.draw
  (mix.map fun row => mergeInto row dst.1 (l1Cache ((row.get src.1).toNat % l1CacheNumItems)) sel.1,
    sel.2)

/-- `src1` and `src2` out of one draw. -/
def mathSources (rnd : UInt32) : Nat × Nat :=
  let srcRnd := rnd.toNat % (32 * (32 - 1))
  let src1 := srcRnd % 32
  let src2 := srcRnd / 32
  (src1, if src2 ≥ src1 then src2 + 1 else src2)

/-- Random math, in every lane. -/
def mathOperation (mix : Mix) (s : MixRngState) : Mix × MixRngState :=
  let rnd := s.draw
  let src := mathSources rnd.1
  let sel1 := rnd.2.draw
  let dst := sel1.2.nextDst
  let sel2 := dst.2.draw
  (mix.map fun row => mergeInto row dst.1
    (randomMath (row.get (Fin.ofNat 32 src.1)) (row.get (Fin.ofNat 32 src.2)) sel1.1) sel2.1, sel2.2)

def numCacheAccesses : Nat := 12
def numMathOperations : Nat := 20

/-- One turn of the loop over `max_operations`. -/
def operation (l1Cache : Nat → UInt32) (acc : Mix × MixRngState) (i : Nat) : Mix × MixRngState :=
  let acc := if i < numCacheAccesses then cacheAccess l1Cache acc.1 acc.2 else acc
  if i < numMathOperations then mathOperation acc.1 acc.2 else acc

def operations (l1Cache : Nat → UInt32) (mix : Mix) (s : MixRngState) : Mix × MixRngState :=
  (List.range (max numCacheAccesses numMathOperations)).foldl (operation l1Cache) (mix, s)

/-- One entry of `dsts` and `sels`. -/
def dagPattern (s : MixRngState) (i : Nat) : (Reg × UInt32) × MixRngState :=
  let dst := if i = 0 then (0, s) else s.nextDst
  let sel := dst.2.draw
  ((dst.1, sel.1), sel.2)

/-- `dsts` and `sels`, in order. -/
def dagPatterns (s : MixRngState) : List (Reg × UInt32) :=
  ((List.range 4).foldl (fun (acc : List (Reg × UInt32) × MixRngState) i =>
    (acc.1 ++ [(dagPattern acc.2 i).1], (dagPattern acc.2 i).2)) ([], s)).1

/-- The words of the dataset item that lane `l` merges in round `r`. -/
def dagMerge (item : Hash2048) (r : Nat) (patterns : List (Reg × UInt32)) (mix : Mix) : Mix :=
  Vector.ofFn fun l : Lane => patterns.zipIdx.foldl (fun row p =>
    mergeInto row p.1.1 (item.get (Fin.ofNat 64 ((l.val ^^^ r) % 16 * 4 + p.2))) p.1.2) (mix.get l)

/-- `round` after its lookup. -/
def roundWith (l1Cache : Nat → UInt32) (item : Hash2048) (r : Nat) (mix : Mix)
    (s : MixRngState) : Mix :=
  let done := operations l1Cache mix s
  dagMerge item r (dagPatterns done.2) done.1

/-- The item that round `r` looks up. -/
def itemIndex (context : EpochContext) (r : Nat) (mix : Mix) : Nat :=
  ((mix.get (Fin.ofNat 16 r)).get 0).toNat % (context.fullDatasetNumItems / 2)

def initMix (seed : UInt64) : Mix :=
  let z := fnv1a fnvOffsetBasis seed.toUInt32
  let w := fnv1a z (seed >>> 32).toUInt32
  Vector.ofFn fun l : Lane =>
    let jsr := fnv1a w (UInt32.ofNat l)
    let rng : Kiss99 := { z, w, jsr, jcong := fnv1a jsr (UInt32.ofNat l) }
    Vector.ofFn fun k : Reg => rng.drawAt k

def periodLength : Nat := 50

/-- The state that `hash_mix` makes for a block and hands to each round by value. -/
def periodState (blockNumber : Nat) : MixRngState :=
  MixRngState.init (UInt64.ofNat (blockNumber / periodLength))

def numRounds : Nat := 64

def laneHash (row : Row) : UInt32 := row.foldl fnv1a fnvOffsetBasis

/-- The two reductions at the end of `hash_mix`. -/
def reduceMix (mix : Mix) : Hash256 :=
  (List.finRange 16).foldl (fun (h : Hash256) (l : Lane) =>
    let k := Fin.ofNat 8 l
    h.set k (fnv1a (h.get k) (laneHash (mix.get l))) k.isLt) (Vector.replicate 8 fnvOffsetBasis)

/-- The input of Keccak-f[800]: the header hash, the nonce, the mix hash and zeros. -/
def progpowInput (headerHash : Hash256) (nonce : UInt64) (mixHash : Hash256) : Vector UInt32 25 :=
  let nonceWords : Vector UInt32 2 := #v[nonce.toUInt32, (nonce >>> 32).toUInt32]
  let padding : Vector UInt32 7 := Vector.replicate 7 0
  (headerHash ++ nonceWords ++ mixHash ++ padding :)

variable (K : Keccak)

def keccakProgpow256 (headerHash : Hash256) (nonce : UInt64) (mixHash : Hash256) : Hash256 :=
  (K.keccakf800 (progpowInput headerHash nonce mixHash)).take 8

/-- `be::uint64(h.word64s[i])`: the bytes of the word in memory, most significant first. -/
def beWord64 (h : Hash256) (i : Nat) : UInt64 :=
  UInt64.ofNat (beNat ((h.bytes.drop (8 * i)).take 8))

def keccakProgpow64 (headerHash : Hash256) (nonce : UInt64) : UInt64 :=
  beWord64 (keccakProgpow256 K headerHash nonce (Vector.replicate 8 0)) 0

structure Result where
  finalHash : Hash256
  mixHash : Hash256
deriving DecidableEq

/-- The end of `hash`, from the mix after the last round. -/
def hashResult (headerHash : Hash256) (seed : UInt64) (mix : Mix) : Result :=
  { finalHash := keccakProgpow256 K headerHash seed (reduceMix mix), mixHash := reduceMix mix }

/-- `l1_cache` of a light context: 16 KiB that hold the first 64 items. -/
def lightL1Cache (context : EpochContext) (k : Nat) : UInt32 :=
  (calculateDatasetItem2048 K context (k / 64)).get (Fin.ofNat 64 k)

/-- The mix after the first `n` rounds on a light context. -/
def lightMix (context : EpochContext) (blockNumber : Nat) (seed : UInt64) (n : Nat) : Mix :=
  (List.range n).foldl (fun mix r =>
    roundWith (lightL1Cache K context) (calculateDatasetItem2048 K context (itemIndex context r mix))
      r mix (periodState blockNumber)) (initMix seed)

/-- `progpow::hash` on a light context. -/
def hashLight (context : EpochContext) (blockNumber : Nat) (headerHash : Hash256)
    (nonce : UInt64) : Result :=
  let seed := keccakProgpow64 K headerHash nonce
  hashResult K headerHash seed (lightMix K context blockNumber seed numRounds)

end SickPool.Ethash
