import SickPool.Library.Bytes
import Mathlib.Data.Rat.Defs

/-!
# Rewards and payees

The records of `payouts/manager/round_share.hpp`.
-/
namespace SickPool.Payouts

open SickPool.Library

/-- The reward is signed where it is computed and unsigned as the parameter of a statement. -/
structure RoundReward (α : Type) where
  effort : ℚ
  share : ℚ
  reward : α
  deriving DecidableEq

structure Payee where
  minerId : Nat
  amountClean : Nat
  address : Bytes
  deriving DecidableEq

structure PayoutInfo where
  txid : Bytes
  txFee : Nat
  time : Nat
  total : Nat
  id : Nat
  deriving DecidableEq

end SickPool.Payouts
