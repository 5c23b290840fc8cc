import SickPool.Stratum.HandleShare

/-!
# The block handed to the daemon

`GetBlockHex` of a ZEC job writes the header and the transactions, but `HandleShare` passes
on the first `2 * block_size` characters only, and `block_size` of a ZEC template keeps its
default of 0. So the daemon is given the empty string for every block.
-/
namespace SickPool.Stratum

open SickPool.Library SickPool.Library.Bytes SickPool.Utils SickPool.Crypto SickPool.Jobs
open SickPool.Persistence SickPool.Shares

variable {p : StratumProtocol} {R : Type}

/-- A share that `Process` finds to be a block is submitted. -/
theorem handleShare_submitted {env : Env R} {srv : Server p R} {cli : StratumClient}
    {share : Share p} {call : Call} {job : Job p}
    (ha : (cli.getAuthorizedId share.worker).isSome)
    (hj : srv.jobManager.getJob share.jobId = some job)
    (hb : (process env.hashes env.fmtDouble cli call.blockHeader job share call.time
      call.curtime).1.code = .VALID_BLOCK) :
    (handleShare env srv cli share call).server.submitted = srv.submitted ++
      [blockHex job call (process env.hashes env.fmtDouble cli call.blockHeader job share call.time
        call.curtime).2.2 share] := by
  obtain ⟨id, hid⟩ := Option.isSome_iff_exists.mp ha
  simp only [handleShare, hid, hj]
  generalize process env.hashes env.fmtDouble cli call.blockHeader job share call.time
    call.curtime = processed at hb ⊢
  simp only [settleShare, hb, acceptBlock]

theorem genNumScript_ne_nil (value : Nat) : genNumScript value ≠ [] := by
  unfold genNumScript
  split
  · simp
  · rename_i hne
    have hbytes : absBytes 8 value ≠ [] := by
      rw [absBytes, if_neg hne]
      simp
    simp only
    split
    · simp
    · exact hbytes

/-- The transaction part of a block holds at least the transaction count. -/
theorem getTransactionHex_ne_nil (txs : List TxRes) : getTransactionHex txs ≠ [] := by
  intro h
  have hlen := congrArg List.length h
  simp only [getTransactionHex, List.length_append, hexlify_length, List.length_nil] at hlen
  exact genNumScript_ne_nil txs.length (List.length_eq_zero_iff.mp (by omega))

/-- **The submitted block is never the whole block.** For every template and every share
of one of its jobs that is found to be a block, `TrySubmit` is given the empty string,
which is not the hex of the header followed by the transactions. -/
theorem submitted_block_never_whole (env : Env R) (srv : Server .ZEC R) (cli : StratumClient)
    (share : ShareZec) (call : Call) (jobId : Bytes) (bTemplate : BlockTemplateResVrsc)
    (isPayment : Bool) (ha : (cli.getAuthorizedId share.worker).isSome)
    (hj : srv.jobManager.getJob share.jobId =
      some (JobZec.new env.hashes jobId bTemplate isPayment))
    (hb : (process (p := .ZEC) env.hashes env.fmtDouble cli call.blockHeader
      (JobZec.new env.hashes jobId bTemplate isPayment) share call.time call.curtime).1.code =
      .VALID_BLOCK) :
    (handleShare (p := .ZEC) env srv cli share call).server.submitted = srv.submitted ++ [[]] ∧
      (handleShare (p := .ZEC) env srv cli share call).server.submitted ≠ srv.submitted ++
        [hexlify ((JobZec.new env.hashes jobId bTemplate isPayment).getHeaderData call.blockHeader
          share cli.extraNonce) ++
          (JobZec.new env.hashes jobId bTemplate isPayment).transactionsHex] := by
  have hempty : (handleShare (p := .ZEC) env srv cli share call).server.submitted =
      srv.submitted ++ [[]] := by
    rw [handleShare_submitted (p := .ZEC) ha hj hb]
    rfl
  refine ⟨hempty, ?_⟩
  rw [hempty]
  intro h
  have hnil := List.singleton_inj.mp (List.append_cancel_left h)
  exact getTransactionHex_ne_nil bTemplate.transactions (List.append_eq_nil_iff.mp hnil.symm).2

def blockShare : ShareZec :=
  ⟨ascii "w", ascii "00000000", List.replicate 56 48, List.replicate 2694 48, 0⟩

def blockCall : Call := ⟨1000, 1000, List.replicate 1487 0, List.Vector.replicate 7 0⟩

def blockServer : Server .ZEC Round.RoundDb :=
  freshServer (p := .ZEC) (constHashes (toArray 32 [1]))
    (sampleTemplateZec (List.replicate 63 48 ++ [49]))

theorem submitted_block_never_whole_sample :
    (handleShare (p := .ZEC) (sampleEnv (toArray 32 [1])) blockServer sampleClient blockShare
        blockCall).server.submitted = blockServer.submitted ++ [[]] ∧
      (handleShare (p := .ZEC) (sampleEnv (toArray 32 [1])) blockServer sampleClient blockShare
        blockCall).server.submitted ≠ blockServer.submitted ++
        [hexlify ((JobZec.new (constHashes (toArray 32 [1])) (fmtHex 8 0)
          (sampleTemplateZec (List.replicate 63 48 ++ [49])) true).getHeaderData
            blockCall.blockHeader blockShare sampleClient.extraNonce) ++
          (JobZec.new (constHashes (toArray 32 [1])) (fmtHex 8 0)
            (sampleTemplateZec (List.replicate 63 48 ++ [49])) true).transactionsHex] :=
  submitted_block_never_whole (sampleEnv (toArray 32 [1])) blockServer sampleClient blockShare
    blockCall (fmtHex 8 0) (sampleTemplateZec (List.replicate 63 48 ++ [49])) true
    (by decide) rfl (by decide +kernel)

/-- The daemon is given the empty string for a block of one transaction. -/
theorem submitted_block_empty :
    (process (p := .ZEC) (constHashes (toArray 32 [1])) (fun _ => []) sampleClient
        blockCall.blockHeader (JobZec.new (constHashes (toArray 32 [1])) (fmtHex 8 0)
          (sampleTemplateZec (List.replicate 63 48 ++ [49])) true) blockShare blockCall.time
        blockCall.curtime).1.code = .VALID_BLOCK ∧
      (handleShare (p := .ZEC) (sampleEnv (toArray 32 [1])) blockServer sampleClient blockShare
        blockCall).server.submitted = [[]] ∧
      (JobZec.new (constHashes (toArray 32 [1])) (fmtHex 8 0)
        (sampleTemplateZec (List.replicate 63 48 ++ [49])) true).transactionsHex =
        ascii "01" := by
  refine ⟨?_, ?_, ?_⟩ <;> decide +kernel

end SickPool.Stratum
