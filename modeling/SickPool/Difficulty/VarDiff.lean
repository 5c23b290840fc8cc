import SickPool.Library.Double
import SickPool.Persistence.Schema
import Mathlib.Data.Vector.Basic

/-!
# Variable difficulty

`VarDiff`: a ring of the last ten share times, its running sum in 64-bit arithmetic,
and the retarget rule. `Adjust` returns 0 for "no change".
-/
namespace SickPool.Difficulty

open SickPool.Library SickPool.Persistence

/-- `VarDiff`. `pos` counts up to the size of the ring and is put back by the next
`Add`. -/
structure VarDiff where
  shareTimes : List.Vector Nat 10
  retargetCount : Nat
  retargetSum : Double
  sum : Nat
  pos : Nat
  pos_le : pos ≤ 10
  targetShareRate : Double
  retargetInterval : Nat
  deriving DecidableEq

/-- The difference of two `uint64_t`. -/
def sub64 (a b : Nat) : Nat := (a + uint64Size - b % uint64Size) % uint64Size

namespace VarDiff

def new (rate : Double) (retargetInterval : Nat) : VarDiff where
  shareTimes := List.Vector.replicate 10 0
  retargetCount := 0
  retargetSum := 0
  sum := 0
  pos := 0
  pos_le := by decide
  targetShareRate := rate
  retargetInterval := retargetInterval

def slot (v : VarDiff) : Fin 10 := if h : v.pos < 10 then ⟨v.pos, h⟩ else 0

def add (v : VarDiff) (t : Nat) : VarDiff :=
  { v with
    sum := sub64 ((v.sum + t) % uint64Size) (v.shareTimes.get v.slot)
    shareTimes := v.shareTimes.set v.slot t
    pos := v.slot + 1
    pos_le := v.slot.isLt }

/-- The guards of `Adjust`: too early, with too few shares. -/
def tooEarly (v : VarDiff) (elapsedTime : Nat) : Prop :=
  elapsedTime < v.retargetInterval ∧
    if v.retargetCount = 0 then v.pos < 10 / 2 ∧ elapsedTime < v.retargetInterval / 2
    else v.pos < 10

instance (v : VarDiff) (t : Nat) : Decidable (v.tooEarly t) := by
  unfold tooEarly
  infer_instance

def currentShareTime (v : VarDiff) : Double :=
  if v.sum ≠ 0 then .num v.sum / .num v.pos / 1000 else 0

def adjust (v : VarDiff) (currentDiff : Double) (curtime lastAdjusted : Nat) : VarDiff × Double :=
  let elapsedTime := sub64 curtime lastAdjusted / 1000
  if v.tooEarly elapsedTime then (v, 0)
  else
    let currentShareTime := v.currentShareTime
    let v := { v with
      retargetSum := v.retargetSum + currentShareTime
      retargetCount := (v.retargetCount + 1) % uint64Size }
    let minuteRate := 60 / (v.retargetSum / .num v.retargetCount)
    let diffMultiplier :=
      if v.retargetSum = 0 then 1 / .num v.retargetCount
      else if currentShareTime = 0 then .num (1 / 2)
      else minuteRate / v.targetShareRate
    let newDiff := currentDiff * diffMultiplier
    let variance := (newDiff - currentDiff).abs
    if .num (1 / 10) < variance / currentDiff then (v, newDiff) else (v, 0)

end VarDiff
end SickPool.Difficulty
