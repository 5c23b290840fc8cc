import SickPool.Library.Absorb
import SickPool.Library.Bytes
import SickPool.Library.Run

/-!
# VerusHash 2.2

`CVerusHashV2` of `verushash/verus_hash.h` and the key cache behind it. A hasher object is fed
with `Write` and swaps its two buffers at each block. The key for the second half of the hash is
32 times longer than the block it is made from, so each thread keeps the last key and a copy of
the part that hashing spoils. The rounds of Haraka and the eight cases of `verusclhash` are
parameters; which bytes of the key a case may overwrite is not.
-/
namespace SickPool.Crypto.VerusHash

open SickPool.Library SickPool.Library.Bytes SickPool.Library.Absorb

/-- `verusclhasher::keymask`: one bit less than the highest power of 2 in the size. -/
def keymask (keysize : Nat) : Nat := if keysize.log2 = 0 then 0 else 2 ^ keysize.log2 - 1

/-- `VERUSKEYSIZE`, a multiple of 32. -/
def keySize : Nat := 1024 * 8 + 40 * 16

def keyMask : Nat := keymask keySize

def refreshSize : Nat := keyMask + 1

theorem refreshSize_eq : refreshSize = 8192 := by decide

/-- The functions of `haraka.c`, and of `verus_clhash.cpp` the body of a case and the reduction
at the end. A case gives the accumulator and what it stores, `true` for a store at `prand` and
`false` for one at `prandex`. `haraka512Keyed` reads its round keys from the start of its second
argument. -/
structure Haraka where
  haraka512 : Bytes → Vector UInt8 32
  haraka256 : Bytes → Vector UInt8 32
  haraka512Keyed : Bytes → Bytes → Vector UInt8 32
  clCase : Bytes → Bytes → Bytes → Bytes × List (Bool × Vector UInt8 16)
  clReduce : Bytes → UInt64

variable (F : Haraka)

def clLoad (key : Bytes) (i : Nat) : Bytes := (key.drop (16 * i)).take 16

def clStore (key : Bytes) (i : Nat) (block : Vector UInt8 16) : Bytes :=
  writeAt key (16 * i) block.toList

/-- One turn of the loop: two places in the key from the accumulator, and a case that stores
there. -/
def clRound (buf : Bytes) (st : Bytes × Bytes) : Bytes × Bytes :=
  let selector := leNat (st.1.take 8)
  let prand := selector / 2 ^ 5 % (refreshSize / 16)
  let prandex := selector / 2 ^ 32 % (refreshSize / 16)
  let r := F.clCase st.1 st.2 buf
  (r.1, r.2.foldl (fun key s => clStore key (if s.1 then prand else prandex) s.2) st.2)

/-- `verusclhash_sv2_2`: the 64-bit result and the key as it is left. -/
def verusclhash (key buf : Bytes) : UInt64 × Bytes :=
  let st := (List.range 32).foldl (fun st _ => clRound F buf st)
    (clLoad key (refreshSize / 16 - 1 + 2), key)
  (F.clReduce st.1, st.2)

/-! ## The key cache -/

/-- `verusclhasher_key` and `verusclhasher_descr` of a thread: the key in use, the copy of its
first part, and the seed it was made from. -/
structure KeyCache where
  seed : Bytes
  key : Bytes
  refresh : Bytes

/-- `n` blocks, each hashed from the one before. -/
def chain : Nat → Bytes → Bytes
  | 0, _ => []
  | n + 1, src => (F.haraka256 src).toList ++ chain n (F.haraka256 src).toList

def newKey (seed : Bytes) : Bytes := chain F (keySize / 32) seed

def genNewCLKey (c : KeyCache) (seed : Bytes) : KeyCache :=
  if c.seed ≠ seed then
    { seed, key := newKey F seed, refresh := (newKey F seed).take refreshSize }
  else { c with key := c.refresh ++ c.key.drop refreshSize }

/-! ## The hasher -/

scoped instance blockLength : NeZero 32 := ⟨by decide⟩

/-- A `CVerusHashV2`. `swapped` says that `curBuf` is `buf2`. -/
structure Hasher where
  curBuf : Bytes
  result : Bytes
  swapped : Bool
  curPos : Fin 32

/-- `Reset()`. Only the first buffer is cleared. -/
def Hasher.reset (s : Hasher) : Hasher where
  curBuf := List.replicate 64 0
  result := if s.swapped then s.curBuf else s.result
  swapped := false
  curPos := 0

/-- The block is full: hash it into the other buffer and swap. -/
def Hasher.digest (s : Hasher) (data : Bytes) : Hasher :=
  let full := writeAt s.curBuf (32 + s.curPos) data
  { curBuf := writeAt s.result 0 (F.haraka512 full).toList
    result := full
    swapped := !s.swapped
    curPos := 0 }

theorem drop_decreases {data : Bytes} {room : Nat} (h : data ≠ []) (hroom : 0 < room) :
    (data.drop room).length < data.length := by
  have hpos := List.length_pos_of_ne_nil h
  rw [List.length_drop]
  omega

theorem room_pos (pos : Fin 32) : 0 < 32 - pos.val := Nat.sub_pos_of_lt pos.isLt

/-- `Write(data, len)`. -/
def Hasher.write (s : Hasher) (data : Bytes) : Hasher :=
  if data = [] then s
  else if h : s.curPos + data.length < 32 then
    { s with
      curBuf := writeAt s.curBuf (32 + s.curPos) data
      curPos := ⟨s.curPos + data.length, h⟩ }
  else Hasher.write (s.digest F (data.take (32 - s.curPos))) (data.drop (32 - s.curPos))
termination_by data.length
decreasing_by exact drop_decreases ‹_› (room_pos s.curPos)

def Hasher.finalize (s : Hasher) : Bytes :=
  if s.curPos ≠ 0 then
    (F.haraka512 (writeAt s.curBuf (32 + s.curPos) (List.replicate (32 - s.curPos) 0))).toList
  else s.curBuf.take 32

theorem fill_decreases {left len : Nat} (h : 0 < left ∧ 0 < len) : left - min left len < left := by
  omega

/-- The loop of `FillExtra` from `pos` on. -/
def fillLoop (data buf : Bytes) (pos left : Nat) : Bytes :=
  if 0 < left ∧ 0 < data.length then
    fillLoop data (writeAt buf (32 + pos) (data.take left)) (pos + min left data.length)
      (left - min left data.length)
  else buf
termination_by left
decreasing_by exact fill_decreases ‹_›

def Hasher.fillExtra (s : Hasher) (data : Bytes) : Hasher :=
  { s with curBuf := fillLoop data s.curBuf s.curPos (32 - s.curPos) }

def Hasher.finalize2b (s : Hasher) (c : KeyCache) : Bytes × Hasher × KeyCache :=
  let s := s.fillExtra (s.curBuf.take 16)
  let c := genNewCLKey F c (s.curBuf.take 32)
  let r := verusclhash F c.key s.curBuf
  let s := s.fillExtra (leBytes 8 r.1.toNat)
  let offset := r.1.toNat % (refreshSize / 16)
  ((F.haraka512Keyed s.curBuf (r.2.drop (16 * offset))).toList, s, { c with key := r.2 })

/-- `HashWrapper::VerushashV2b2`. -/
def verushashV2b2 (s : Hasher) (c : KeyCache) (data : Bytes) : Bytes × Hasher × KeyCache :=
  ((s.reset).write F data).finalize2b F c

/-- The static `CVerusHashV2::Hash`: the loop over what is left of the data, with the first half
of the buffer. -/
def hashLoop (head data : Bytes) : Bytes :=
  if data = [] then head
  else if 32 ≤ data.length then
    hashLoop (F.haraka512 (head ++ data.take 32)).toList (data.drop 32)
  else (F.haraka512 (head ++ data ++ List.replicate (32 - data.length) 0)).toList
termination_by data.length
decreasing_by exact drop_decreases ‹_› (Nat.zero_lt_succ 31)

def hash (data : Bytes) : Bytes := hashLoop F (List.replicate 32 0) data

end SickPool.Crypto.VerusHash
