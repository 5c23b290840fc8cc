import Mathlib.Data.Rat.Defs

/-!
# Compile-time configuration

The constants of `static_config/` that the modelled code reads. A server is
instantiated for `ZanoStatic` and `VrscStatic` only, so the protocols are the two
of those configurations. `DIFF1` is `HexToDouble` of 64 digits `F`, read as an
exact number.
-/
namespace SickPool

/-- `Coin`, for the coins with a server. -/
inductive Coin where
  | VRSC
  | ZANO
  deriving DecidableEq, Repr

/-- `StratumProtocol`, for the protocols with a server. -/
inductive StratumProtocol where
  | ZEC
  | CN
  deriving DecidableEq, Repr

/-- `StaticConf`: the template parameter of servers, jobs and processors. -/
structure StaticConf where
  COIN_SYMBOL : Coin
  STRATUM_PROTOCOL : StratumProtocol
  DIFF1 : ℚ
  BLOCK_HASH_SIZE : Nat
  MAX_FUTURE_BLOCK_TIME : Nat
  BLOCK_HEADER_SIZE : Nat
  COINBASE_MATURITY : Nat

/-- The number with 64 hex digits `F`. -/
def diff1 : ℚ := 2 ^ 256 - 1

def zanoStatic : StaticConf where
  COIN_SYMBOL := .ZANO
  STRATUM_PROTOCOL := .CN
  DIFF1 := diff1
  BLOCK_HASH_SIZE := 32
  MAX_FUTURE_BLOCK_TIME := 60
  BLOCK_HEADER_SIZE := 81
  COINBASE_MATURITY := 10

def vrscStatic : StaticConf where
  COIN_SYMBOL := .VRSC
  STRATUM_PROTOCOL := .ZEC
  DIFF1 := diff1
  BLOCK_HASH_SIZE := 32
  MAX_FUTURE_BLOCK_TIME := 60
  BLOCK_HEADER_SIZE := 140 + 3 + 1344
  COINBASE_MATURITY := 100

end SickPool
