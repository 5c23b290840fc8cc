import SickPool.Crypto.HashWrapper

/-!
# The merkle tree of a template

`MerkleTree<32>`. `CalcRoot` works in place on one vector: the parents of a level are
written over its first half and the vector never gets shorter.
-/
namespace SickPool.Crypto.MerkleTree

open SickPool.Library SickPool.Utils

def zeroHash : Hash32 := List.Vector.replicate 32 0

/-- One hash of `GetHashes`: the 64 digits of a transaction hash, reversed. -/
def leafHash (hash : Bytes) : Hash32 :=
  ⟨(toArray 32 (unhexlify hash)).toList.reverse, by simp⟩

def getHashes (txHashes : List Bytes) : List Hash32 := txHashes.map leafHash

/-- The inner loop of `CalcRoot`: `hashes[j]` becomes the hash of `hashes[2j]` and
`hashes[2j + 1]`, for `j` from 0. -/
def hashLevel (sha256d : Bytes → Hash32) (pairs : Nat) (hashes : List Hash32) : List Hash32 :=
  (List.range pairs).foldl (fun hashes j =>
    hashes.set j (sha256d ((hashes.getD (2 * j) zeroHash).toList ++
      (hashes.getD (2 * j + 1) zeroHash).toList))) hashes

/-- The outer loop of `CalcRoot`. An odd level is made even by repeating the last
element of the vector. -/
def calcRootLoop (sha256d : Bytes → Hash32) : Nat → Nat → List Hash32 → List Hash32
  | 0, _, hashes => hashes
  | fuel + 1, hashCount, hashes =>
    if 1 < hashCount then
      if hashCount % 2 = 1 then
        calcRootLoop sha256d fuel ((hashCount + 1) / 2)
          (hashLevel sha256d ((hashCount + 1) / 2) (hashes ++ [hashes.getLastD zeroHash]))
      else calcRootLoop sha256d fuel (hashCount / 2) (hashLevel sha256d (hashCount / 2) hashes)
    else hashes

/-- `CalcRoot`. A level has fewer elements than the one before, so the number of leaves
bounds the number of levels. -/
def calcRoot (sha256d : Bytes → Hash32) (hashes : List Hash32) : Hash32 :=
  (calcRootLoop sha256d hashes.length hashes.length hashes).getD 0 zeroHash

end SickPool.Crypto.MerkleTree
