import SickPool.Crypto.MerkleRoot
import SickPool.Jobs.TemplateIdentity

/-!
# What the Merkle root of a job tells of its transactions

The root that `CalcRoot` leaves is not the Bitcoin root of most lists, but every element of a
level is hashed into the level above. The root identifies the transactions of templates with as
many of them, and with it the job manager tells such templates apart.
-/
namespace SickPool.Crypto.MerkleTree

open SickPool.Library SickPool.Library.Merkle SickPool.Utils

/-- The pairs that the outer loop of `CalcRoot` hashes. -/
def loopPairs (sha256d : Bytes → Hash32) : Nat → Nat → List Hash32 → List (Hash32 × Hash32)
  | 0, _, _ => []
  | fuel + 1, hashCount, hashes =>
    if 1 < hashCount then
      pairs ((evened hashCount hashes).take (2 * ((hashCount + 1) / 2))) ++
        loopPairs sha256d fuel ((hashCount + 1) / 2)
          (hashLevel sha256d ((hashCount + 1) / 2) (evened hashCount hashes))
    else []

def calcRootPairs (sha256d : Bytes → Hash32) (hashes : List Hash32) : List (Hash32 × Hash32) :=
  loopPairs sha256d hashes.length hashes.length hashes

theorem evened_take {hashCount : Nat} {hashes : List Hash32} (hc : hashCount ≤ hashes.length) :
    (evened hashCount hashes).take hashCount = hashes.take hashCount := by
  rw [evened]
  split
  · exact List.take_append_of_le_length hc
  · rfl

/-- The level above identifies a level, with whatever stands behind it. -/
theorem take_eq_of_hashLevel {sha256d : Bytes → Hash32} {hashCount : Nat}
    {hashes hashes' : List Hash32} (hlen : hashes.length = hashes'.length)
    (hc : hashCount ≤ hashes.length)
    (hno : NoCollision (hashPair sha256d)
      (pairs ((evened hashCount hashes).take (2 * ((hashCount + 1) / 2))))
      (pairs ((evened hashCount hashes').take (2 * ((hashCount + 1) / 2)))))
    (heq : (hashLevel sha256d ((hashCount + 1) / 2) (evened hashCount hashes)).take
        ((hashCount + 1) / 2) =
      (hashLevel sha256d ((hashCount + 1) / 2) (evened hashCount hashes')).take
        ((hashCount + 1) / 2)) :
    hashes.take hashCount = hashes'.take hashCount := by
  have heven := evened_length hashCount hashes
  have heven' := evened_length hashCount hashes'
  rw [hashLevel_take sha256d (by omega), hashLevel_take sha256d (by omega)] at heq
  have hlevel := pairUp_inj
    (by rw [List.length_take, List.length_take, heven, heven', hlen]) hno heq
  have hle : hashCount ≤ 2 * ((hashCount + 1) / 2) := by omega
  have hfront := congrArg (List.take hashCount) hlevel
  rw [List.take_take, List.take_take, Nat.min_eq_left hle, evened_take hc,
    evened_take (hlen ▸ hc)] at hfront
  exact hfront

theorem calcRootLoop_inj (sha256d : Bytes → Hash32) (fuel : Nat) :
    ∀ {hashCount : Nat} {hashes hashes' : List Hash32}, hashCount ≤ fuel →
      hashCount ≤ hashes.length → hashes.length = hashes'.length →
      NoCollision (hashPair sha256d) (loopPairs sha256d fuel hashCount hashes)
        (loopPairs sha256d fuel hashCount hashes') →
      (calcRootLoop sha256d fuel hashCount hashes).getD 0 zeroHash =
        (calcRootLoop sha256d fuel hashCount hashes').getD 0 zeroHash →
      hashes.take hashCount = hashes'.take hashCount := by
  induction fuel with
  | zero =>
    intro hashCount hashes hashes' hf _ _ _ _
    obtain rfl := Nat.le_zero.mp hf
    rfl
  | succ fuel ih =>
    intro hashCount hashes hashes' hf hc hlen hno heq
    by_cases hmany : 1 < hashCount
    · rw [loopPairs, if_pos hmany, loopPairs, if_pos hmany] at hno
      rw [calcRootLoop_succ sha256d fuel hmany, calcRootLoop_succ sha256d fuel hmany] at heq
      have heven := evened_length hashCount hashes
      have heven' := evened_length hashCount hashes'
      refine take_eq_of_hashLevel hlen hc hno.append.1 (ih (by omega) ?_ ?_ hno.append.2 heq)
      · rw [hashLevel_length sha256d (by omega)]
        omega
      · rw [hashLevel_length sha256d (by omega), hashLevel_length sha256d (by omega)]
        omega
    · rw [calcRootLoop, if_neg hmany, calcRootLoop, if_neg hmany] at heq
      rcases Nat.le_one_iff_eq_zero_or_eq_one.mp (Nat.not_lt.mp hmany) with rfl | rfl
      · rfl
      · rcases hashes with _ | ⟨a, rest⟩
        · exact absurd hc (by decide)
        · rcases hashes' with _ | ⟨a', rest'⟩
          · exact absurd hlen (by simp)
          · exact congrArg (fun a => [a]) heq

/-- The root identifies the leaves among lists of one length, unless two of the pairs that are
hashed for them collide. -/
theorem calcRoot_inj {sha256d : Bytes → Hash32} {leaves leaves' : List Hash32}
    (hlen : leaves.length = leaves'.length)
    (hno : NoCollision (hashPair sha256d) (calcRootPairs sha256d leaves)
      (calcRootPairs sha256d leaves'))
    (heq : calcRoot sha256d leaves = calcRoot sha256d leaves') : leaves = leaves' := by
  rw [calcRoot, calcRoot, ← hlen] at heq
  rw [calcRootPairs, calcRootPairs, ← hlen] at hno
  have htake := calcRootLoop_inj sha256d leaves.length (Nat.le_refl _) (Nat.le_refl _) hlen hno heq
  rwa [List.take_length, hlen, List.take_length] at htake

end SickPool.Crypto.MerkleTree

namespace SickPool.Jobs

open SickPool.Library SickPool.Library.Merkle SickPool.Library.Run SickPool.Crypto
open SickPool.Stratum JobManager

/-- The leaves of the Merkle tree of a ZEC template, the coinbase first. -/
def BlockTemplateRes.leaves (res : BlockTemplateRes .ZEC) : List Utils.Hash32 :=
  MerkleTree.getHashes ((BlockTemplateResVrsc.transactions res).map TxRes.hash)

/-- In every run of the job manager over ZEC templates the current job is made of one of them, and
a next template that is no higher and has as many transactions is dropped exactly when it has the
same transactions in the same order, as long as `SHA256d` does not collide on the pairs hashed for
the two. -/
theorem JobManager.exists_dropped_iff (hashes : Hashes) (res : BlockTemplateRes .ZEC)
    (templates : List (BlockTemplateRes .ZEC)) :
    ∃ current ∈ res :: templates,
      (run (nextTemplate hashes) (getFirstJob hashes res) templates).MadeOf hashes current ∧
      ∀ template : BlockTemplateRes .ZEC, template.height ≤
        (run (nextTemplate hashes) (getFirstJob hashes res) templates).lastJob.base.height →
      current.leaves.length = template.leaves.length →
      NoCollision (MerkleTree.hashPair hashes.sha256d)
        (MerkleTree.calcRootPairs hashes.sha256d current.leaves)
        (MerkleTree.calcRootPairs hashes.sha256d template.leaves) →
      (((run (nextTemplate hashes) (getFirstJob hashes res) templates).getNewJob hashes template).2 =
        none ↔ current.leaves = template.leaves) := by
  obtain ⟨current, hmem, hmade⟩ := exists_madeOf hashes res templates
  refine ⟨current, hmem, hmade, fun template hheight hlen hno => ?_⟩
  rw [hmade.getNewJob_none_iff hheight]
  constructor
  · intro hroot
    exact MerkleTree.calcRoot_inj hlen hno hroot
  · intro hleaves
    exact congrArg (MerkleTree.calcRoot hashes.sha256d) hleaves

end SickPool.Jobs
