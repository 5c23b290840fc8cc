import SickPool.Ethash.Primes
import SickPool.Library.Bytes
import Mathlib.Logic.Equiv.Fin.Basic

/-!
# Light cache and dataset items

`ethash/ethash.cpp`: how a context of an epoch is built and how an item of its dataset is
computed from the light cache. The machine is little-endian, so `le::uint32` and its
relatives do nothing and a hash is the list of its 32-bit words.
-/
namespace SickPool.Ethash

abbrev Hash256 := Vector UInt32 8
abbrev Hash512 := Vector UInt32 16
abbrev Hash1024 := Vector UInt32 32
abbrev Hash2048 := Vector UInt32 64

/-! The lengths of these vectors are numbers of which a remainder can be taken. -/

scoped instance length8 : NeZero 8 := ⟨by decide⟩
scoped instance length16 : NeZero 16 := ⟨by decide⟩
scoped instance length32 : NeZero 32 := ⟨by decide⟩
scoped instance length64 : NeZero 64 := ⟨by decide⟩

/-- A hash as it lies in memory. -/
def Hash256.bytes (h : Hash256) : Library.Bytes :=
  h.toList.flatMap fun w => Library.Bytes.leBytes 4 w.toNat

/-- The Keccak functions of `ethash/keccak.c`, `keccakf1600.c` and `keccakf800.c`.
`keccak512Seed` is `keccak512` on 32 bytes, `keccak512` on 64. -/
structure Keccak where
  keccak256 : Hash256 → Hash256
  keccak512Seed : Hash256 → Hash512
  keccak512 : Hash512 → Hash512
  keccakf800 : Vector UInt32 25 → Vector UInt32 25

def fnvPrime : UInt32 := 0x01000193

def fnvOffsetBasis : UInt32 := 0x811c9dc5

def fnv1 (u v : UInt32) : UInt32 := (u * fnvPrime) ^^^ v

def fnv1a (u v : UInt32) : UInt32 := (u ^^^ v) * fnvPrime

/-- `fnv1` on the words of two hashes. -/
def fnv1Words (u v : Hash512) : Hash512 := u.zipWith fnv1 v

def bitwiseXor (x y : Hash512) : Hash512 := x.zipWith (· ^^^ ·) y

/-- `hash512s[2]` seen as `word32s[32]`. -/
def hash1024 (parts : Vector Hash512 2) : Hash1024 := (parts.get 0 ++ parts.get 1 :)

/-- `hash512s[4]` seen as `word32s[64]`. -/
def hash2048 (parts : Vector Hash512 4) : Hash2048 :=
  (parts.get 0 ++ parts.get 1 ++ parts.get 2 ++ parts.get 3 :)

/-- What does not change in a context once it is made. `l1_cache` and `full_dataset` point
into memory that is written while the context is in use and is not part of the record. -/
structure EpochContext where
  epochNumber : Nat
  lightCacheNumItems : Nat
  lightCache : Nat → Hash512
  fullDatasetNumItems : Nat

variable (K : Keccak)

def calculateEpochSeed (epochNumber : Nat) : Hash256 := K.keccak256^[epochNumber] (Vector.replicate 8 0)

/-- The first loop of `build_light_cache`. -/
def cacheChain (seed : Hash256) : Nat → Hash512
  | 0 => K.keccak512Seed seed
  | i + 1 => K.keccak512 (cacheChain seed i)

/-- The body of the second loop, which overwrites item `i`. -/
def cacheMix (numItems : Nat) (cache : Nat → Hash512) (i : Nat) : Nat → Hash512 :=
  let v := ((cache i).get 0).toNat % numItems
  let w := (numItems + i - 1) % numItems
  Function.update cache i (K.keccak512 (bitwiseXor (cache v) (cache w)))

def buildLightCache (numItems : Nat) (seed : Hash256) : Nat → Hash512 :=
  (List.range 3).foldl (fun cache _ => (List.range numItems).foldl (cacheMix K numItems) cache)
    (fun i => if i < numItems then cacheChain K seed i else Vector.replicate 16 0)

/-- The context of an epoch, before its L1 cache is filled. -/
def epochContext (epochNumber : Nat) : EpochContext where
  epochNumber := epochNumber
  lightCacheNumItems := calculateLightCacheNumItems epochNumber
  lightCache := buildLightCache K (calculateLightCacheNumItems epochNumber)
    (calculateEpochSeed K epochNumber)
  fullDatasetNumItems := calculateFullDatasetNumItems epochNumber

structure ItemState where
  seed : UInt32
  mix : Hash512

/-- `item_state(context, index)`. -/
def ItemState.init (context : EpochContext) (index : Nat) : ItemState :=
  let seed := UInt32.ofNat index
  let mix := context.lightCache (index % context.lightCacheNumItems)
  { seed, mix := K.keccak512 (mix.set 0 (mix.get 0 ^^^ seed)) }

def ItemState.update (context : EpochContext) (s : ItemState) (round : Nat) : ItemState :=
  let t := fnv1 (s.seed ^^^ UInt32.ofNat round) (s.mix.get (Fin.ofNat 16 round))
  { s with mix := fnv1Words s.mix (context.lightCache (t.toNat % context.lightCacheNumItems)) }

def ItemState.final (s : ItemState) : Hash512 := K.keccak512 s.mix

def fullDatasetItemParents : Nat := 256

def calculateDatasetItem512 (context : EpochContext) (index : Nat) : Hash512 :=
  ((List.range fullDatasetItemParents).foldl (ItemState.update context)
    (ItemState.init K context index)).final K

/-- `for (j = 0; j < full_dataset_item_parents; ++j)` over items that all take step `j` before
any takes the next. -/
def updateItems {n : Nat} (context : EpochContext) (items : Vector ItemState n) :
    Vector ItemState n :=
  (List.range fullDatasetItemParents).foldl (fun items j => items.map (·.update context j)) items

def calculateDatasetItem1024 (context : EpochContext) (index : Nat) : Hash1024 :=
  let items := #v[ItemState.init K context (index * 2), ItemState.init K context (index * 2 + 1)]
  hash1024 ((updateItems context items).map (·.final K))

def calculateDatasetItem2048 (context : EpochContext) (index : Nat) : Hash2048 :=
  let items := #v[ItemState.init K context (index * 4), ItemState.init K context (index * 4 + 1),
    ItemState.init K context (index * 4 + 2), ItemState.init K context (index * 4 + 3)]
  hash2048 ((updateItems context items).map (·.final K))

/-- Loops that run in step on states of their own end as they would alone. -/
theorem updateItems_eq_map {n : Nat} (context : EpochContext) (items : Vector ItemState n) :
    updateItems context items =
      items.map ((List.range fullDatasetItemParents).foldl (ItemState.update context)) := by
  unfold updateItems
  generalize List.range fullDatasetItemParents = l
  induction l generalizing items with
  | nil => simp
  | cons j l ih =>
    rw [List.foldl_cons, ih, Vector.map_map]
    rfl

theorem calculateDatasetItem1024_eq (context : EpochContext) (index : Nat) :
    calculateDatasetItem1024 K context index =
      hash1024 #v[calculateDatasetItem512 K context (index * 2),
        calculateDatasetItem512 K context (index * 2 + 1)] := by
  simp only [calculateDatasetItem1024, updateItems_eq_map, calculateDatasetItem512, Vector.map_mk,
    List.map_toArray, List.map_cons, List.map_nil]

theorem calculateDatasetItem2048_eq (context : EpochContext) (index : Nat) :
    calculateDatasetItem2048 K context index =
      hash2048 #v[calculateDatasetItem512 K context (index * 4),
        calculateDatasetItem512 K context (index * 4 + 1),
        calculateDatasetItem512 K context (index * 4 + 2),
        calculateDatasetItem512 K context (index * 4 + 3)] := by
  simp only [calculateDatasetItem2048, updateItems_eq_map, calculateDatasetItem512, Vector.map_mk,
    List.map_toArray, List.map_cons, List.map_nil]

theorem hash2048_eq_append (a b c d : Hash512) :
    hash2048 #v[a, b, c, d] = (hash1024 #v[a, b] ++ hash1024 #v[c, d] : Vector UInt32 (32 + 32)) := by
  apply Vector.toArray_inj.mp
  show (a ++ b ++ c ++ d).toArray = ((a ++ b) ++ (c ++ d)).toArray
  simp only [Vector.toArray_append, Array.append_assoc]

/-- The memory of a dataset is the same read with items of 1024 bits and with items of 2048
bits: item `i` of the second kind is items `2 i` and `2 i + 1` of the first. -/
theorem calculateDatasetItem2048_eq_append (context : EpochContext) (index : Nat) :
    calculateDatasetItem2048 K context index =
      (calculateDatasetItem1024 K context (index * 2) ++
        calculateDatasetItem1024 K context (index * 2 + 1) : Vector UInt32 (32 + 32)) := by
  have hodd : (index * 2 + 1) * 2 = index * 4 + 2 := by omega
  rw [calculateDatasetItem2048_eq, calculateDatasetItem1024_eq, calculateDatasetItem1024_eq, hodd,
    show index * 2 * 2 = index * 4 by omega, hash2048_eq_append]

end SickPool.Ethash
