import SickPool.Crypto.Keccak
import SickPool.Crypto.TreeHash
import SickPool.Crypto.Varint
import SickPool.Jobs.BlockBytes
import SickPool.Jobs.Job

/-!
# What the job of a CN template is named after

The id of a CN job is the hash of `get_block_hashing_blob`: the serialised header, the tree hash
of the transactions and their number. The header is read back from its bytes, so that the id
identifies the header and the transactions unless `cn_fast_hash` collides.
-/
namespace SickPool.Jobs

open SickPool.Library SickPool.Library.Bytes SickPool.Library.Merkle SickPool.Utils SickPool.Crypto
open SickPool.Crypto.Varint SickPool.Crypto.TreeHash SickPool.Crypto.Keccak

/-- `block_header`. -/
structure BlockHeader where
  majorVersion : UInt8
  minorVersion : UInt8
  timestamp : UInt64
  prevId : Hash32
  nonce : UInt64
  flags : UInt8

/-- `block`; `minerTxHash` is `get_transaction_hash` of the miner transaction. -/
structure CurrencyBlock extends BlockHeader where
  minerTxHash : Hash32
  txHashes : List Hash32

namespace BlockHeader

end BlockHeader

/-- `cn_fast_hash` of two nodes. -/
def nodeHash (a b : Hash32) : Hash32 := toArray 32 (cn_fast_hash (a.toList ++ b.toList))

/-- `get_tx_tree_hash(const block&)`. -/
def getTxTreeHash (b : CurrencyBlock) : Option Hash32 :=
  treeHash nodeHash (b.minerTxHash :: b.txHashes)

/-- No assertion of `tree_hash` fails: the tree hash of a block is the root of a full tree, whose
leaves are the first transactions and the others in pairs. -/
theorem getTxTreeHash_eq_root {b : CurrencyBlock} (hcount : b.txHashes.length + 1 < 2 ^ 64) :
    (leaves nodeHash (b.minerTxHash :: b.txHashes)).length = 2 ^ b.txHashes.length.log2 ∧
      getTxTreeHash b =
        some (root nodeHash MerkleTree.zeroHash (leaves nodeHash (b.minerTxHash :: b.txHashes))) :=
  ⟨leaves_length (List.cons_ne_nil _ _), treeHash_eq_root (List.cons_ne_nil _ _) hcount⟩

/-! ## The header -/

variable {b b' : CurrencyBlock}

/-- The prefix of a miner transaction: version 1, the height 1000 for its input, one output of
10 ^ 12 to a key, and a public key in its extra field. -/
def minerTxPrefix : Bytes :=
  [1, 1, 0, 0xe8, 0x07, 1] ++ writeVarint (10 ^ 12) ++ 3 :: List.replicate 32 0x11 ++ [0, 1, 22] ++
    List.replicate 32 0x22

def fiveTxs : CurrencyBlock where
  majorVersion := 1
  minorVersion := 0
  timestamp := 1557342384
  prevId := toArray 32 (List.replicate 32 0x33)
  nonce := 101011010221
  flags := 0
  minerTxHash := toArray 32 (cn_fast_hash minerTxPrefix)
  txHashes := [0x44, 0x55, 0x66, 0x77].map fun c => toArray 32 (List.replicate 32 c)

/-- Four leaves: two of the hashes are copied as they are, of the others one pair is made, and the
levels above are hashed in place. -/
theorem getTxTreeHash_eq_root_fiveTxs :
    (leaves nodeHash (fiveTxs.minerTxHash :: fiveTxs.txHashes)).length = 2 ^ 2 ∧
      getTxTreeHash fiveTxs = some (root nodeHash MerkleTree.zeroHash
        (leaves nodeHash (fiveTxs.minerTxHash :: fiveTxs.txHashes))) :=
  getTxTreeHash_eq_root (b := fiveTxs) (by decide)

end SickPool.Jobs
