import SickPool.Stratum.HandleShare

/-!
# What a share weighs

A share is credited to the statistics with the client's difficulty, and to the PPLNS window
with the same, unless it is a block: the window then gets the difficulty of the share's own
hash, which is chance.
-/
namespace SickPool.Stratum

open SickPool.Library SickPool.Utils SickPool.Crypto SickPool.Jobs SickPool.Shares

variable {p : StratumProtocol} {R : Type}

namespace Credit

/-- The difficulty a call passes to `AddRoundSharePPLNS`. -/
def pplnsWeight? : Credit → Option Double
  | addRoundSharePPLNS _ difficulty => some difficulty
  | _ => none

/-- The difficulty a call passes to `AddValidShare`. -/
def validEffort? : Credit → Option Double
  | addValidShare _ difficulty => some difficulty
  | _ => none

end Credit

/-- The difficulties a share puts into the PPLNS window. -/
def Outcome.pplnsWeights (o : Outcome p R) : List Double := o.credits.filterMap Credit.pplnsWeight?

/-- The efforts a share puts into the statistics. -/
def Outcome.validEfforts (o : Outcome p R) : List Double := o.credits.filterMap Credit.validEffort?

/-- The share enters the window and the statistics once each, with one difficulty. -/
def Outcome.Weighs (o : Outcome p R) (difficulty : Double) : Prop :=
  o.pplnsWeights = [difficulty] ∧ o.validEfforts = [difficulty]

/-- The share is no block, or one whose hash has the client's difficulty. -/
def PlainWeight (env : Env R) (srv : Server p R) (cli : StratumClient) (share : Share p)
    (call : Call) : Prop :=
  ∀ job, srv.jobManager.getJob share.jobId = some job →
    .num job.base.targetDiff ≤ shareDifficulty (staticConf p)
      (hashOf env.hashes cli job share call.blockHeader) →
    shareDifficulty (staticConf p) (hashOf env.hashes cli job share call.blockHeader) =
      cli.currentDiff

/-- An accepted share weighs the client's difficulty exactly if no block gives it another. -/
theorem weighs_iff {env : Env R} {srv : Server p R} {cli : StratumClient} {share : Share p}
    {call : Call} (h : Accepted env srv cli share call) :
    (handleShare env srv cli share call).Weighs cli.currentDiff ↔
      PlainWeight env srv cli share call := by
  obtain ⟨ha, job, hj, ht, hd⟩ := h
  obtain ⟨id, hid⟩ := Option.isSome_iff_exists.mp ha
  have hcredits := handleShare_credits_eq hid hj ht hd
  unfold Outcome.Weighs Outcome.pplnsWeights Outcome.validEfforts
  rw [hcredits]
  by_cases hb : Double.num job.base.targetDiff ≤ shareDifficulty (staticConf p)
      (hashOf env.hashes cli job share call.blockHeader)
  · rw [if_pos hb]
    show [shareDifficulty _ _] = [cli.currentDiff] ∧ [cli.currentDiff] = [cli.currentDiff] ↔ _
    rw [and_iff_left rfl, List.singleton_inj]
    constructor
    · intro heq job' hj' _
      obtain rfl : job = job' := Option.some.inj (hj.symm.trans hj')
      exact heq
    · intro hplain
      exact hplain job hj hb
  · rw [if_neg hb]
    refine iff_of_true ⟨rfl, rfl⟩ ?_
    intro job' hj' hb'
    obtain rfl : job = job' := Option.some.inj (hj.symm.trans hj')
    exact absurd hb' hb

/-- Two accepted shares of clients with the same difficulty weigh the same, and what their effort
is counted as, exactly if neither is a block of another difficulty. -/
theorem same_weight_iff {env : Env R} {srv srv' : Server p R} {cli cli' : StratumClient}
    {share share' : Share p} {call call' : Call} (h : Accepted env srv cli share call)
    (h' : Accepted env srv' cli' share' call') (hdiff : cli.currentDiff = cli'.currentDiff) :
    ((handleShare env srv cli share call).pplnsWeights =
        (handleShare env srv' cli' share' call').pplnsWeights ∧
      (handleShare env srv cli share call).Weighs cli.currentDiff ∧
      (handleShare env srv' cli' share' call').Weighs cli'.currentDiff) ↔
    PlainWeight env srv cli share call ∧ PlainWeight env srv' cli' share' call' := by
  rw [weighs_iff h, weighs_iff h']
  constructor
  · rintro ⟨-, hplain⟩
    exact hplain
  · rintro ⟨hplain, hplain'⟩
    refine ⟨?_, hplain, hplain'⟩
    rw [((weighs_iff h).mpr hplain).1, ((weighs_iff h').mpr hplain').1, hdiff]

/-! ## One share, on an easy and on a hard job -/

/-- The sample share on a job of the given difficulty. -/
def sampleServer (difficulty : Nat) : Server .CN Round.RoundDb :=
  freshServer (constHashes maxHash) { sampleTemplate with difficulty := difficulty }

theorem sampleShare_accepted (difficulty : Nat) :
    Accepted (sampleEnv maxHash) (sampleServer difficulty) sampleClient sampleShare sampleCall :=
  ⟨by decide +kernel,
    JobCn.new (constHashes maxHash) { sampleTemplate with difficulty := difficulty } true, rfl,
    trivial, Finset.notMem_empty _⟩

theorem same_weight_hard_jobs :
    (handleShare (sampleEnv maxHash) (sampleServer 1000000000) sampleClient sampleShare
        sampleCall).pplnsWeights =
      (handleShare (sampleEnv maxHash) (sampleServer 2000000000) sampleClient sampleShare
        sampleCall).pplnsWeights := by
  refine ((same_weight_iff (sampleShare_accepted _) (sampleShare_accepted _) rfl).mpr ⟨?_, ?_⟩).1
  · intro job hj hb
    obtain rfl : JobCn.new (constHashes maxHash) _ true = job := Option.some.inj hj
    exact absurd hb (by decide +kernel)
  · intro job hj hb
    obtain rfl : JobCn.new (constHashes maxHash) _ true = job := Option.some.inj hj
    exact absurd hb (by decide +kernel)

/-- The share that is a block on a job of difficulty 1 weighs about 256 in the window, the same
share on a harder job the client's 1000000. -/
theorem block_weighs_by_its_hash :
    (Accepted (sampleEnv maxHash) (sampleServer 1) sampleClient sampleShare sampleCall ∧
      Accepted (sampleEnv maxHash) (sampleServer 1000000000) sampleClient sampleShare sampleCall) ∧
      (handleShare (sampleEnv maxHash) (sampleServer 1) sampleClient sampleShare
        sampleCall).pplnsWeights ≠
        (handleShare (sampleEnv maxHash) (sampleServer 1000000000) sampleClient sampleShare
          sampleCall).pplnsWeights ∧
      (handleShare (sampleEnv maxHash) (sampleServer 1) sampleClient sampleShare
        sampleCall).validEfforts = [1000000] :=
  ⟨⟨sampleShare_accepted 1, sampleShare_accepted 1000000000⟩, by decide +kernel,
    by decide +kernel⟩

end SickPool.Stratum
