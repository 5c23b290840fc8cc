import SickPool.Library.Double
import SickPool.Persistence.Schema

/-!
# Statistics and round records

The records of `stats/stats.hpp` and `stats/round.hpp`. The hashrate fields of
`WorkerStats` are derived when an interval ends and are not kept here.
-/
namespace SickPool.Stats

open SickPool.Library SickPool.Persistence

structure FullId where
  minerId : Nat
  workerId : Nat
  deriving DecidableEq

/-- The conversion of the two `int64_t` ids, `-1` for none. -/
def FullId.ofIds (minerId workerId : Nat) : FullId := ⟨minerId % uint32Size, workerId % uint32Size⟩

structure WorkerStats where
  intervalValidShares : Nat
  intervalStaleShares : Nat
  intervalInvalidShares : Nat
  currentIntervalEffort : Double
  deriving DecidableEq

def WorkerStats.empty : WorkerStats := ⟨0, 0, 0, 0⟩

/-- A record of the PPLNS window, with its difficulty as a double or as an exact number. -/
structure Share (α : Type) where
  minerId : Nat
  diff : α
  deriving DecidableEq

abbrev RoundShare := Share Double

structure Round where
  totalEffort : Double
  estimatedEffort : Double
  roundStartMs : Nat
  deriving DecidableEq

end SickPool.Stats
