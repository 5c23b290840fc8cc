import SickPool.Jobs.JobWindow

/-!
# When a template is taken for the current work

`GetNewJob` drops a template of no greater height whose job is equal to the last one, and
`operator==` compares a fingerprint of the transactions: for CN the 64-bit sum of the first
words of their hashes, for ZEC the Merkle root. Neither depends on the previous block.
-/
namespace SickPool.Jobs

open SickPool.Library SickPool.Library.Bytes SickPool.Library.Run SickPool.Utils SickPool.Crypto
open SickPool.Stratum

variable {p : StratumProtocol}

/-! ## What the work of a template is -/

namespace BlockTemplateRes

/-- The block a template builds on; for CN `prev_id` of the serialised header, which follows the
version of one byte and the nonce of eight. -/
def prevBlock : {p : StratumProtocol} → BlockTemplateRes p → Hash32
  | .ZEC, res => ⟨(toArray 32 (unhexlify (BlockTemplateResVrsc.prevBlockHash res))).toList.reverse,
      by simp⟩
  | .CN, res => toArray 32 ((unhexlify (BlockTemplateResCn.blob res)).drop 9)

/-- The hashes of the transactions but the coinbase, which a ZEC template has in front. -/
def txHashes (hashes : Hashes) : {p : StratumProtocol} → BlockTemplateRes p → List Hash32
  | .ZEC, res => MerkleTree.getHashes
      ((BlockTemplateResVrsc.transactions res).tail.map TxRes.hash)
  | .CN, res => (hashes.unserializeBlock (unhexlify (BlockTemplateResCn.blob res))).txHashes

/-- Two templates have the same block before them and the same transactions in any order. -/
structure SameWork (hashes : Hashes) (a b : BlockTemplateRes p) : Prop where
  prevBlock : a.prevBlock = b.prevBlock
  transactions : (a.txHashes hashes).Perm (b.txHashes hashes)

/-- What the code compares of two templates. -/
def SameFingerprint (hashes : Hashes) :
    {p : StratumProtocol} → BlockTemplateRes p → BlockTemplateRes p → Prop
  | .ZEC, a, b =>
    MerkleTree.calcRoot hashes.sha256d
        (MerkleTree.getHashes ((BlockTemplateResVrsc.transactions a).map TxRes.hash)) =
      MerkleTree.calcRoot hashes.sha256d
        (MerkleTree.getHashes ((BlockTemplateResVrsc.transactions b).map TxRes.hash))
  | .CN, a, b =>
    getTxSum (hashes.unserializeBlock (unhexlify (BlockTemplateResCn.blob a))) =
      getTxSum (hashes.unserializeBlock (unhexlify (BlockTemplateResCn.blob b)))

end BlockTemplateRes

open BlockTemplateRes

theorem Job.make_same_iff (hashes : Hashes) (count count' : Nat) (a b : BlockTemplateRes p)
    (clean clean' : Bool) :
    (Job.make hashes count a clean).same (Job.make hashes count' b clean') = true ↔
      SameFingerprint hashes a b := by
  cases p with
  | ZEC => exact decide_eq_true_iff
  | CN => exact decide_eq_true_iff

/-! ## The current job -/

namespace JobManager

/-- The last job was made of `current`. -/
def MadeOf (hashes : Hashes) (jm : JobManager p) (current : BlockTemplateRes p) : Prop :=
  ∃ count clean, jm.lastJob = Job.make hashes count current clean

/-- Over every sequence of templates the last job is made of one of them. -/
theorem exists_madeOf (hashes : Hashes) (res : BlockTemplateRes p)
    (templates : List (BlockTemplateRes p)) :
    ∃ current ∈ res :: templates,
      (run (nextTemplate hashes) (getFirstJob hashes res) templates).MadeOf hashes current := by
  induction templates using List.reverseRecOn with
  | nil => exact ⟨res, List.mem_cons_self .., 0, true, rfl⟩
  | append_singleton templates template ih =>
    obtain ⟨current, hmem, hmade⟩ := ih
    rw [run_append, run_cons, run_nil, nextTemplate]
    obtain ⟨-, he⟩ | ⟨job, -, he, hjob⟩ := getNewJob_cases hashes
      (run (nextTemplate hashes) (getFirstJob hashes res) templates) template
    · rw [he]
      refine ⟨current, ?_, hmade⟩
      rcases List.mem_cons.mp hmem with rfl | hmem
      · exact List.mem_cons_self ..
      · exact List.mem_cons_of_mem _ (List.mem_append_left _ hmem)
    · rw [he]
      exact ⟨template, by simp, _, _, (setNewJob_lastJob ..).trans hjob⟩

variable {jm : JobManager p} {hashes : Hashes} {current : BlockTemplateRes p}

/-- A template of no greater height is dropped for its fingerprint. -/
theorem MadeOf.getNewJob_none_iff (hmade : jm.MadeOf hashes current)
    {template : BlockTemplateRes p} (hheight : template.height ≤ jm.lastJob.base.height) :
    (jm.getNewJob hashes template).2 = none ↔ SameFingerprint hashes current template := by
  obtain ⟨count, clean, hlast⟩ := hmade
  have hsame := Job.make_same_iff hashes count jm.jobCount current template clean false
  rw [← hlast] at hsame
  obtain ⟨hna, he⟩ | ⟨job, ha, he, -⟩ := getNewJob_cases hashes jm template
  · rw [he]
    apply iff_of_true rfl
    by_contra hne
    rw [← hsame, Bool.not_eq_true] at hne
    exact hna (fun _ => hne)
  · rw [he]
    apply iff_of_false (by simp)
    rw [← hsame, ha hheight]
    simp

/-- A template is dropped only if it is the work of the current job. -/
def DropsOnlyCurrent (hashes : Hashes) (jm : JobManager p)
    (current template : BlockTemplateRes p) : Prop :=
  (jm.getNewJob hashes template).2 = none → SameWork hashes current template

/-- It is so exactly if the fingerprints differ or the work is the same. -/
theorem dropsOnlyCurrent_iff (hashes : Hashes) (jm : JobManager p)
    (current template : BlockTemplateRes p) (hmade : jm.MadeOf hashes current)
    (hheight : template.height ≤ jm.lastJob.base.height) :
    DropsOnlyCurrent hashes jm current template ↔
      ¬ SameFingerprint hashes current template ∨ SameWork hashes current template := by
  rw [DropsOnlyCurrent, hmade.getNewJob_none_iff hheight]
  exact imp_iff_not_or

/-- A template with the transactions of the current one: for CN in any order, for ZEC as they are,
the coinbase included. -/
def SameTransactions (hashes : Hashes) :
    {p : StratumProtocol} → BlockTemplateRes p → BlockTemplateRes p → Prop
  | .ZEC, a, b => (BlockTemplateResVrsc.transactions a).map TxRes.hash =
      (BlockTemplateResVrsc.transactions b).map TxRes.hash
  | .CN, a, b => (BlockTemplateRes.txHashes (p := .CN) hashes a).Perm
      (BlockTemplateRes.txHashes (p := .CN) hashes b)

theorem SameTransactions.fingerprint {a b : BlockTemplateRes p} (h : SameTransactions hashes a b) :
    SameFingerprint hashes a b := by
  cases p with
  | ZEC => exact congrArg (fun txs => MerkleTree.calcRoot hashes.sha256d (MerkleTree.getHashes txs)) h
  | CN => exact congrArg (· % 2 ^ 64) (h.map _).sum_eq

theorem SameTransactions.perm {a b : BlockTemplateRes p} (h : SameTransactions hashes a b) :
    (a.txHashes hashes).Perm (b.txHashes hashes) := by
  cases p with
  | ZEC =>
    have htail := congrArg (fun txs => MerkleTree.getHashes txs.tail) h
    simp only [← List.map_tail] at htail
    exact List.Perm.of_eq htail
  | CN => exact h

/-- With the transactions of the current template every other one of no greater height is
dropped, on whichever block it is. -/
theorem dropsOnlyCurrent_sameTransactions (hmade : jm.MadeOf hashes current)
    {template : BlockTemplateRes p} (hheight : template.height ≤ jm.lastJob.base.height)
    (htxs : SameTransactions hashes current template) :
    DropsOnlyCurrent hashes jm current template ↔ current.prevBlock = template.prevBlock := by
  rw [DropsOnlyCurrent, hmade.getNewJob_none_iff hheight]
  constructor
  · intro h
    exact (h htxs.fingerprint).prevBlock
  · intro h _
    exact ⟨h, htxs.perm⟩

/-! ## Two templates of one height -/

theorem dropsOnlyCurrent_other :
    DropsOnlyCurrent (constHashes maxHash) (getFirstJob (constHashes maxHash) JobHistory.firstZec)
      JobHistory.firstZec JobHistory.otherZec := by
  apply (dropsOnlyCurrent_iff _ _ _ _ ⟨0, true, rfl⟩ (by decide)).mpr
  left
  show ¬ MerkleTree.calcRoot _ _ = MerkleTree.calcRoot _ _
  decide +kernel

/-- The coinbase of the first template on another block. -/
def reorganisedZec : BlockTemplateRes .ZEC :=
  { sampleTemplateZec [] with prevBlockHash := List.replicate 64 49 }

/-- It is of the same height, on another block, and dropped. -/
theorem not_dropsOnlyCurrent_reorganised :
    reorganisedZec.height = JobHistory.firstZec.height ∧
      JobHistory.firstZec.prevBlock ≠ reorganisedZec.prevBlock ∧
      ((getFirstJob (constHashes maxHash) JobHistory.firstZec).getNewJob (constHashes maxHash)
        reorganisedZec).2 = none ∧
      ¬ DropsOnlyCurrent (constHashes maxHash)
        (getFirstJob (constHashes maxHash) JobHistory.firstZec) JobHistory.firstZec
        reorganisedZec := by
  have hprev : JobHistory.firstZec.prevBlock ≠ reorganisedZec.prevBlock := by decide +kernel
  have hmade : (getFirstJob (constHashes maxHash) JobHistory.firstZec).MadeOf (constHashes maxHash)
      JobHistory.firstZec := ⟨0, true, rfl⟩
  have htxs : SameTransactions (constHashes maxHash) JobHistory.firstZec reorganisedZec := rfl
  refine ⟨rfl, hprev, (hmade.getNewJob_none_iff (by decide)).mpr htxs.fingerprint, ?_⟩
  rw [dropsOnlyCurrent_sameTransactions hmade (by decide) htxs]
  exact hprev

end JobManager
end SickPool.Jobs
