import SickPool.Stratum.HandleShare
import Mathlib.Algebra.Order.Floor.Div

/-!
# Block detection for VRSC

`target_diff` is the template's target itself, read as a number, while the difficulty of a
share is `DIFF1` divided by the hash without its lowest byte. The comparison therefore
asks whether the product of the two is below `2 ^ 256`: the larger the target, the fewer
hashes are taken for blocks. The results say for which hashes this is still the comparison
of the hash with the target.
-/
namespace SickPool.Shares

open SickPool.Library SickPool.Library.Bytes SickPool.Utils SickPool.Crypto SickPool.Jobs
open SickPool.Stratum (StratumClient hashOf Duplicate process_inTime judge_new constHashes newClient
  sampleTemplateZec)

theorem target_le_difficulty_iff (target raw : Nat) :
    Double.num target ≤ .num diff1 / .num raw ↔ target * raw < 2 ^ 256 := by
  rw [Double.num_div_num]
  by_cases hr : raw = 0
  · have hpos : (0 : ℚ) < diff1 := by norm_num [diff1]
    simp [hr, Double.infOf, hpos]
  · have hr' : (0 : ℚ) < raw := by exact_mod_cast Nat.pos_of_ne_zero hr
    have hd : diff1 = ((2 ^ 256 - 1 : Nat) : ℚ) := by norm_num [diff1]
    rw [if_neg hr'.ne', Double.num_le_num, le_div_iff₀ hr', hd]
    norm_cast
    omega

theorem shareDifficulty_zec (hash : Hash32) :
    shareDifficulty (staticConf .ZEC) hash =
      .num diff1 / .num ((leNat hash.toList / 256 : Nat) : ℚ) := by
  rw [shareDifficulty, bytesToDoubleLE_eq]
  rfl

/-- A share in time that is no duplicate is taken for a block when the product of target
and truncated hash is below `2 ^ 256`. -/
theorem process_valid_block_iff (hashes : Hashes) (fmtDouble : Double → Bytes)
    (cli : StratumClient) (blockHeader jobId : Bytes) {bTemplate : BlockTemplateResVrsc}
    (isPayment : Bool) {share : ShareZec} {curTime : Nat} (curtime : Nat)
    (hlen : bTemplate.target.length = 64)
    (ht : TimeInRange (p := .ZEC) (JobZec.new hashes jobId bTemplate isPayment) share curTime)
    (hd : ¬ Duplicate (p := .ZEC) hashes cli (JobZec.new hashes jobId bTemplate isPayment) share
      blockHeader) :
    (process (p := .ZEC) hashes fmtDouble cli blockHeader
        (JobZec.new hashes jobId bTemplate isPayment) share curTime curtime).1.code =
        .VALID_BLOCK ↔
      beNat (unhexlify bTemplate.target) *
        (leNat (hashOf (p := .ZEC) hashes cli (JobZec.new hashes jobId bTemplate isPayment) share
          blockHeader).toList / 256) < 2 ^ 256 := by
  obtain ⟨varDiff, pendingDiff, lastAdjusted, hp⟩ := process_inTime hashes fmtDouble cli blockHeader
    curtime ht
  obtain ⟨hcode, -, -⟩ := judge_new (p := .ZEC) fmtDouble
    (JobZec.new hashes jobId bTemplate isPayment)
    (hashOf (p := .ZEC) hashes cli (JobZec.new hashes jobId bTemplate isPayment) share blockHeader)
    cli.currentDiff
  have htarget : (Job.base (p := .ZEC) (JobZec.new hashes jobId bTemplate isPayment)).targetDiff =
      (beNat (unhexlify bTemplate.target) : ℚ) := hexToDouble_eq hlen
  rw [hp]
  simp only [hd, not_false_eq_true, decide_true]
  rw [hcode, htarget, shareDifficulty_zec, ← target_le_difficulty_iff]
  split <;> simp_all

/-- Hashes below this bound are taken for blocks. -/
def detectionBound (target : Nat) : Nat := 256 * (2 ^ 256 ⌈/⌉ target)

theorem mul_truncated_lt_iff {target : Nat} (hpos : 0 < target) (hash : Nat) :
    target * (hash / 256) < 2 ^ 256 ↔ hash < detectionBound target := by
  have hceil := ceilDiv_le_iff_le_mul (b := 2 ^ 256) (c := hash / 256) hpos
  rw [← not_le, ← hceil, detectionBound]
  omega

/-- **When blocks are detected.** For every template with a positive target, every client
and every share in time that is no duplicate, the share is taken for a block exactly when
its hash is at most the target if and only if the hash does not lie between the target and
the bound `256 * ⌈2 ^ 256 / target⌉`. -/
theorem block_detection_iff (hashes : Hashes) (fmtDouble : Double → Bytes) (cli : StratumClient)
    (blockHeader jobId : Bytes) (bTemplate : BlockTemplateResVrsc) (isPayment : Bool)
    (share : ShareZec) (curTime curtime : Nat) (hlen : bTemplate.target.length = 64)
    (hpos : 0 < beNat (unhexlify bTemplate.target))
    (ht : TimeInRange (p := .ZEC) (JobZec.new hashes jobId bTemplate isPayment) share curTime)
    (hd : ¬ Duplicate (p := .ZEC) hashes cli (JobZec.new hashes jobId bTemplate isPayment) share
      blockHeader) :
    ((process (p := .ZEC) hashes fmtDouble cli blockHeader
          (JobZec.new hashes jobId bTemplate isPayment) share curTime curtime).1.code =
          .VALID_BLOCK ↔
        leNat (hashOf (p := .ZEC) hashes cli (JobZec.new hashes jobId bTemplate isPayment) share
          blockHeader).toList ≤ beNat (unhexlify bTemplate.target)) ↔
      leNat (hashOf (p := .ZEC) hashes cli (JobZec.new hashes jobId bTemplate isPayment) share
          blockHeader).toList <
        min (beNat (unhexlify bTemplate.target) + 1)
          (detectionBound (beNat (unhexlify bTemplate.target))) ∨
      max (beNat (unhexlify bTemplate.target) + 1)
          (detectionBound (beNat (unhexlify bTemplate.target))) ≤
        leNat (hashOf (p := .ZEC) hashes cli (JobZec.new hashes jobId bTemplate isPayment) share
          blockHeader).toList := by
  rw [process_valid_block_iff hashes fmtDouble cli blockHeader jobId isPayment curtime hlen ht hd,
    mul_truncated_lt_iff hpos]
  generalize leNat (hashOf (p := .ZEC) hashes cli (JobZec.new hashes jobId bTemplate isPayment)
    share blockHeader).toList = hash
  generalize detectionBound (beNat (unhexlify bTemplate.target)) = bound
  rw [← Nat.lt_succ_iff, lt_min_iff, max_le_iff]
  omega

def zeroHeader : Bytes := List.replicate 1487 0

def zeroShare : ShareZec := ⟨ascii "w", ascii "00000000", List.replicate 56 48, List.replicate 2694 48, 0⟩

def targetJob (hash : Hash32) (target : Bytes) : JobZec :=
  JobZec.new (constHashes hash) (fmtHex 8 0) (sampleTemplateZec target) true

/-- A hash of value 1 against a target of 1 is detected. -/
theorem block_detection_iff_one :
    (process (p := .ZEC) (constHashes (toArray 32 [1])) (fun _ => []) newClient zeroHeader
        (targetJob (toArray 32 [1]) (List.replicate 63 48 ++ [49])) zeroShare 0 0).1.code =
        .VALID_BLOCK ↔
      leNat (hashOf (p := .ZEC) (constHashes (toArray 32 [1])) newClient
        (targetJob (toArray 32 [1]) (List.replicate 63 48 ++ [49])) zeroShare zeroHeader).toList ≤
        beNat (unhexlify (List.replicate 63 48 ++ [49])) :=
  (block_detection_iff (constHashes (toArray 32 [1])) (fun _ => []) newClient zeroHeader
    (fmtHex 8 0) (sampleTemplateZec (List.replicate 63 48 ++ [49])) true zeroShare 0 0 (by decide)
    (by decide +kernel) ⟨by decide, by decide⟩ (Finset.notMem_empty _)).mpr
    (.inl (by decide +kernel))

def smallHash : Hash32 := toArray 32 (List.replicate 27 0 ++ [8])

/-- A target of `2 ^ 220`, of the size the network has. -/
def networkTarget : Bytes := List.replicate 8 48 ++ [49] ++ List.replicate 55 48

/-- A share in time that is no duplicate and whose hash is half the target is not taken
for a block. -/
theorem block_not_detected :
    TimeInRange (p := .ZEC) (targetJob smallHash networkTarget) zeroShare 0 ∧
      ¬ Duplicate (p := .ZEC) (constHashes smallHash) newClient
        (targetJob smallHash networkTarget) zeroShare zeroHeader ∧
      leNat (hashOf (p := .ZEC) (constHashes smallHash) newClient
        (targetJob smallHash networkTarget) zeroShare zeroHeader).toList = 2 ^ 219 ∧
      beNat (unhexlify networkTarget) = 2 ^ 220 ∧
      (process (p := .ZEC) (constHashes smallHash) (fun _ => []) newClient zeroHeader
        (targetJob smallHash networkTarget) zeroShare 0 0).1.code = .VALID_SHARE := by
  refine ⟨⟨by decide, by decide⟩, Finset.notMem_empty _, ?_, ?_, ?_⟩ <;> decide +kernel

end SickPool.Shares
