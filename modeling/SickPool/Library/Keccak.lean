import SickPool.Library.Absorb
import SickPool.Library.Bytes

/-!
# Keccak

The permutation on 25 lanes of any width, and the sponge over it on bytes. The rotations and the
round constants are computed as the standard defines them, not listed.
-/
namespace SickPool.Library.Keccak

open SickPool.Library.Bytes SickPool.Library.Absorb

variable {w : Nat}

/-- Lane `(x, y)` is word `x + 5 * y`. -/
abbrev State (w : Nat) := Vector (BitVec w) 25

theorem index_lt (x y : Nat) : x % 5 + 5 * (y % 5) < 25 := by omega

def lane (A : State w) (x y : Nat) : BitVec w := A.get ⟨x % 5 + 5 * (y % 5), index_lt x y⟩

def build (f : Nat → Nat → BitVec w) : State w := Vector.ofFn fun i => f (i % 5) (i / 5)

/-- The parity of the column at `x`. -/
def parity (A : State w) (x : Nat) : BitVec w :=
  lane A x 0 ^^^ lane A x 1 ^^^ lane A x 2 ^^^ lane A x 3 ^^^ lane A x 4

def theta (A : State w) : State w :=
  build fun x y => lane A x y ^^^ (parity A (x + 4) ^^^ (parity A (x + 1)).rotateLeft 1)

/-- The rotations of the lanes: a walk from `(1, 0)` that goes from `(x, y)` to `(y, 2x + 3y)`,
with the triangular numbers. -/
def offsets : Vector Nat 25 :=
  ((List.range 24).foldl (fun (st : (Nat × Nat) × Vector Nat 25) t =>
    ((st.1.2, (2 * st.1.1 + 3 * st.1.2) % 5),
      st.2.set (st.1.1 % 5 + 5 * (st.1.2 % 5)) ((t + 1) * (t + 2) / 2) (index_lt _ _)))
    ((1, 0), Vector.replicate 25 0)).2

def offset (x y : Nat) : Nat := offsets.get ⟨x % 5 + 5 * (y % 5), index_lt x y⟩

def rhoPi (A : State w) : State w :=
  build fun x y => (lane A (x + 3 * y) x).rotateLeft (offset (x + 3 * y) x)

def chi (A : State w) : State w :=
  build fun x y => lane A x y ^^^ (~~~lane A (x + 1) y &&& lane A (x + 2) y)

def iota (rc : BitVec w) (A : State w) : State w :=
  build fun x y => if x = 0 ∧ y = 0 then lane A x y ^^^ rc else lane A x y

/-- A step of the shift register behind the round constants. -/
def shift (r : BitVec 8) : BitVec 8 := (r <<< 1) ^^^ (if r.getLsbD 7 then 0x71 else 0)

def register (t : Nat) : BitVec 8 := (List.range t).foldl (fun r _ => shift r) 1

/-- The constant of round `r`: the bits at the places `2 ^ j - 1`. -/
def roundConstant (w r : Nat) : BitVec w :=
  (List.range (w.log2 + 1)).foldl (fun c j =>
    if (register (j + 7 * r)).getLsbD 0 then c ||| (1 : BitVec w) <<< (2 ^ j - 1) else c) 0

def round (r : Nat) (A : State w) : State w := iota (roundConstant w r) (chi (rhoPi (theta A)))

/-- The first `n` rounds. -/
def permute (n : Nat) (A : State w) : State w := (List.range n).foldl (fun A r => round r A) A


theorem permute_succ (n : Nat) (A : State w) : permute (n + 1) A = round n (permute n A) := by
  rw [permute, List.range_succ, List.foldl_append]
  rfl

/-! ## The sponge -/

/-- A block added to the first lanes, eight bytes to a lane, the lowest first. -/
def addBlock (A : State 64) (block : Bytes) : State 64 :=
  Vector.ofFn fun i => if 8 * i < block.length then
    A.get i ^^^ BitVec.ofNat 64 (leNat ((block.drop (8 * i)).take 8)) else A.get i

/-- What is added behind data whose last block misses `room` bytes: a one bit, zeros, and a one bit
at the end. -/
def padding (room : Nat) : Bytes :=
  if room = 1 then [0x81] else 0x01 :: (List.replicate (room - 2) 0 ++ [0x80])

def padded (rate : Nat) (data : Bytes) : Bytes := data ++ padding (rate - data.length % rate)

def stateBytes (A : State 64) : Bytes := A.toList.flatMap fun l => leBytes 8 l.toNat

/-- The Keccak hash of `size` bytes: the capacity is twice the size. -/
def hash (size : Nat) (data : Bytes) : Bytes :=
  (stateBytes (absorb (200 - 2 * size) (fun A block => permute 24 (addBlock A block))
    (Vector.replicate 25 0) (padded (200 - 2 * size) data)).1).take size

end SickPool.Library.Keccak
