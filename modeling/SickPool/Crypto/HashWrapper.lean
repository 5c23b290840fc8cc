import SickPool.Utils.HexUtils

/-!
# Hash functions

The hash functions and the CryptoNote block codec are parameters: nothing here
depends on how they compute.
-/
namespace SickPool.Crypto

open SickPool.Library SickPool.Utils

/-- What the pool reads of an unserialised `currency::block`. -/
structure CnBlock where
  minerReward : Nat
  txHashes : List Hash32
  hashingBlob : Bytes

/-- `HashWrapper` and the functions of `crypto/cn` that the pool calls. `longhash` is
`get_block_longhash_sick` on height, template hash and nonce. -/
structure Hashes where
  sha256d : Bytes → Hash32
  verushashV2b2 : Bytes → Hash32
  longhash : Nat → Hash32 → Nat → Hash32
  cnFastHash : Bytes → Hash32
  unserializeBlock : Bytes → CnBlock
  getBlockHash : Bytes → Hash32

end SickPool.Crypto
