import SickPool.Round.CloseRound
import SickPool.Stratum.StratumServer

/-!
# What `HandleShare` does

One specification of `HandleShare`: it accepts a share exactly when the worker is
authorised, the job is known, the time is in range and the first 32 bits of the hash
are new. The difficulty plays no part, since the low-difficulty verdict of `Process` is
overwritten. From this follows when the credit of a share is sound.
-/
namespace SickPool.Stratum

open SickPool.Library SickPool.Library.Bytes SickPool.Utils SickPool.Crypto SickPool.Jobs
open SickPool.Persistence SickPool.Stats SickPool.Shares SickPool.Difficulty
open SickPool.Round (RoundDb emptyStore)

variable {p : StratumProtocol} {R : Type}

def hashOf (hashes : Hashes) (cli : StratumClient) (job : Job p) (share : Share p)
    (blockHeader : Bytes) : Hash32 :=
  powHash hashes job (getHeaderData job blockHeader share cli.extraNonce) share

/-- The first 32 bits of the hash are in the client's set. -/
def Duplicate (hashes : Hashes) (cli : StratumClient) (job : Job p) (share : Share p)
    (blockHeader : Bytes) : Prop :=
  shareStart (hashOf hashes cli job share blockHeader) ∈ cli.shareUset

instance (hashes : Hashes) (cli : StratumClient) (job : Job p) (share : Share p)
    (blockHeader : Bytes) : Decidable (Duplicate hashes cli job share blockHeader) :=
  inferInstanceAs (Decidable (_ ∈ _))

/-- The share passes every check of `HandleShare` that has an effect. -/
def Accepted (env : Env R) (srv : Server p R) (cli : StratumClient) (share : Share p)
    (call : Call) : Prop :=
  (cli.getAuthorizedId share.worker).isSome ∧ ∃ job, srv.jobManager.getJob share.jobId = some job ∧
    TimeInRange job share call.time ∧ ¬ Duplicate env.hashes cli job share call.blockHeader

/-! ## The processor -/

/-- The verdict on a new share: a block or a valid share, never one of low difficulty. -/
theorem judge_new (fmtDouble : Double → Bytes) (job : Job p) (hash : Hash32)
    (currentDiff : Double) :
    (judge fmtDouble job hash true currentDiff).code =
      (if .num job.base.targetDiff ≤ shareDifficulty (staticConf p) hash then .VALID_BLOCK
        else .VALID_SHARE) ∧
    (judge fmtDouble job hash true currentDiff).difficulty =
      shareDifficulty (staticConf p) hash ∧
    (judge fmtDouble job hash true currentDiff).hashBytes = hash := by
  simp only [judge, Bool.true_eq_false, ↓reduceIte]
  split
  · exact ⟨rfl, rfl, rfl⟩
  · refine ⟨rfl, ?_, ?_⟩ <;> split <;> rfl

theorem judge_old (fmtDouble : Double → Bytes) (job : Job p) (hash : Hash32)
    (currentDiff : Double) :
    (judge fmtDouble job hash false currentDiff).code = .DUPLICATE_SHARE := rfl

/-- `Process` on a share with a time in range. -/
theorem process_inTime (hashes : Hashes) (fmtDouble : Double → Bytes) (cli : StratumClient)
    (blockHeader : Bytes) {job : Job p} {share : Share p} {curTime : Nat} (curtime : Nat)
    (ht : TimeInRange job share curTime) :
    ∃ varDiff pendingDiff lastAdjusted,
      process hashes fmtDouble cli blockHeader job share curTime curtime =
        (judge fmtDouble job (hashOf hashes cli job share blockHeader)
            (decide (¬ Duplicate hashes cli job share blockHeader)) cli.currentDiff,
          { cli with
            varDiff := varDiff
            pendingDiff := pendingDiff
            lastAdjusted := lastAdjusted
            lastShareTime := curTime
            shareUset := insert (shareStart (hashOf hashes cli job share blockHeader))
              cli.shareUset },
          getHeaderData job blockHeader share cli.extraNonce) := by
  obtain ⟨varDiff, pendingDiff, lastAdjusted, h⟩ := cli.setLastShare_eq
    (shareStart (powHash hashes job (getHeaderData job blockHeader share cli.extraNonce) share))
    curTime curtime
  refine ⟨varDiff, pendingDiff, lastAdjusted, ?_⟩
  simp only [process, if_pos ht, h]
  rfl

/-! ## Accepted and rejected shares -/

/-- What a rejected share leaves behind: an error, and the efforts, the pending shares and
the valid-share counters as they were. -/
structure Untouched (srv : Server p R) (o : Outcome p R) : Prop where
  error : o.result.code ≠ .OK
  credits : o.credits = []
  round : o.server.roundManager = srv.roundManager
  valid : o.server.statsManager.validCounters = srv.statsManager.validCounters

/-- An accepted share is credited and its hash is remembered. -/
theorem handleShare_accepted {env : Env R} {srv : Server p R} {cli : StratumClient}
    {share : Share p} {call : Call} {job : Job p}
    (ha : (cli.getAuthorizedId share.worker).isSome)
    (hj : srv.jobManager.getJob share.jobId = some job) (ht : TimeInRange job share call.time)
    (hd : ¬ Duplicate env.hashes cli job share call.blockHeader) :
    (handleShare env srv cli share call).credits ≠ [] ∧
      (handleShare env srv cli share call).client.shareUset =
        insert (shareStart (hashOf env.hashes cli job share call.blockHeader)) cli.shareUset ∧
      (handleShare env srv cli share call).client.extraNonce = cli.extraNonce ∧
      (handleShare env srv cli share call).server.jobManager = srv.jobManager := by
  obtain ⟨id, hid⟩ := Option.isSome_iff_exists.mp ha
  obtain ⟨varDiff, pendingDiff, lastAdjusted, hp⟩ := process_inTime env.hashes env.fmtDouble cli
    call.blockHeader call.curtime ht
  obtain ⟨hcode, -, -⟩ := judge_new env.fmtDouble job
    (hashOf env.hashes cli job share call.blockHeader) cli.currentDiff
  simp only [handleShare, hid, hj, hp, hd, not_false_eq_true, decide_true, settleShare, hcode]
  by_cases hb : Double.num job.base.targetDiff ≤ shareDifficulty (staticConf p)
      (hashOf env.hashes cli job share call.blockHeader)
  · simp [hb, acceptBlock]
  · simp [hb, acceptShare]

/-- A share that is not accepted leaves the books alone and the client's set as it was. -/
theorem handleShare_rejected {env : Env R} {srv : Server p R} {cli : StratumClient}
    {share : Share p} {call : Call} (h : ¬ Accepted env srv cli share call) :
    Untouched srv (handleShare env srv cli share call) ∧
      (handleShare env srv cli share call).client.shareUset = cli.shareUset ∧
      (handleShare env srv cli share call).client.extraNonce = cli.extraNonce ∧
      (handleShare env srv cli share call).server.jobManager = srv.jobManager := by
  have hstale : ∀ it, (srv.statsManager.addStaleShare it).validCounters =
      srv.statsManager.validCounters := fun it =>
    StatsManager.update_validCounters _ it _ (fun _ => rfl) (fun _ => rfl)
  have hinvalid : ∀ it, (srv.statsManager.addInvalidShare it).validCounters =
      srv.statsManager.validCounters := fun it =>
    StatsManager.update_validCounters _ it _ (fun _ => rfl) (fun _ => rfl)
  cases hid : cli.getAuthorizedId share.worker with
  | none =>
    simp only [handleShare, hid]
    exact ⟨⟨by simp, rfl, rfl, rfl⟩, trivial, trivial, trivial⟩
  | some id =>
    cases hj : srv.jobManager.getJob share.jobId with
    | none =>
      simp only [handleShare, hid, hj]
      exact ⟨⟨by simp, rfl, rfl, hstale _⟩, trivial, trivial, trivial⟩
    | some job =>
      by_cases ht : TimeInRange job share call.time
      · have hd : Duplicate env.hashes cli job share call.blockHeader := by
          by_contra hd
          exact h ⟨by simp [hid], job, hj, ht, hd⟩
        obtain ⟨varDiff, pendingDiff, lastAdjusted, hp⟩ := process_inTime env.hashes env.fmtDouble
          cli call.blockHeader call.curtime ht
        simp only [handleShare, hid, hj, hp, hd, not_true_eq_false, decide_false, settleShare,
          judge_old]
        exact ⟨⟨by simp, rfl, rfl, hinvalid _⟩, Finset.insert_eq_self.mpr hd, trivial, trivial⟩
      · simp only [handleShare, hid, hj, process, if_neg ht, settleShare]
        exact ⟨⟨by simp, rfl, rfl, hinvalid _⟩, trivial, trivial, trivial⟩

theorem settleShare_client (env : Env R) (srv : Server p R) (id : FullId) (job : Job p)
    (share : Share p) (call : Call) (processed : ShareResult × StratumClient × Bytes) :
    (settleShare env srv id job share call processed).client = processed.2.1 := by
  unfold settleShare
  split <;> rfl

/-- A share changes what the retarget reads and the share set of its client, no more. -/
theorem handleShare_client (env : Env R) (srv : Server p R) (cli : StratumClient)
    (share : Share p) (call : Call) :
    ∃ varDiff pendingDiff lastAdjusted lastShareTime shareUset,
      (handleShare env srv cli share call).client =
        { cli with
          varDiff := varDiff
          pendingDiff := pendingDiff
          lastAdjusted := lastAdjusted
          lastShareTime := lastShareTime
          shareUset := shareUset } := by
  unfold handleShare
  split
  · exact ⟨_, _, _, _, _, rfl⟩
  · split
    · exact ⟨_, _, _, _, _, rfl⟩
    · rename_i job _
      rw [settleShare_client]
      by_cases ht : TimeInRange job share call.time
      · obtain ⟨varDiff, pendingDiff, lastAdjusted, hp⟩ := process_inTime env.hashes env.fmtDouble
          cli call.blockHeader call.curtime ht
        rw [hp]
        exact ⟨varDiff, pendingDiff, lastAdjusted, _, _, rfl⟩
      · rw [process, if_neg ht]
        exact ⟨_, _, _, _, _, rfl⟩

/-- A share leaves the authorised workers of its client and its iterator alone. -/
theorem handleShare_routes (env : Env R) (srv : Server p R) (cli : StratumClient)
    (share : Share p) (call : Call) :
    (handleShare env srv cli share call).client.authorizedWorkers = cli.authorizedWorkers ∧
      (handleShare env srv cli share call).client.statsIt = cli.statsIt := by
  obtain ⟨_, _, _, _, _, h⟩ := handleShare_client env srv cli share call
  rw [h]
  exact ⟨rfl, rfl⟩

theorem handleShare_authorizedWorkers (env : Env R) (srv : Server p R) (cli : StratumClient)
    (share : Share p) (call : Call) :
    (handleShare env srv cli share call).client.authorizedWorkers = cli.authorizedWorkers :=
  (handleShare_routes env srv cli share call).1

/-- The calls that credit an accepted share, with the weights they pass. -/
theorem handleShare_credits_eq {env : Env R} {srv : Server p R} {cli : StratumClient}
    {share : Share p} {call : Call} {job : Job p} {id : FullId}
    (hid : cli.getAuthorizedId share.worker = some id)
    (hj : srv.jobManager.getJob share.jobId = some job) (ht : TimeInRange job share call.time)
    (hd : ¬ Duplicate env.hashes cli job share call.blockHeader) :
    (handleShare env srv cli share call).credits =
      if .num job.base.targetDiff ≤ shareDifficulty (staticConf p)
          (hashOf env.hashes cli job share call.blockHeader) then
        [.addRoundSharePPLNS id.minerId (shareDifficulty (staticConf p)
            (hashOf env.hashes cli job share call.blockHeader)),
          .addValidShare cli.statsIt cli.currentDiff]
      else
        [.addRoundShare id.minerId (shareDifficulty (staticConf p)
            (hashOf env.hashes cli job share call.blockHeader)),
          .addRoundSharePPLNS id.minerId cli.currentDiff,
          .addValidShare cli.statsIt cli.currentDiff] := by
  obtain ⟨varDiff, pendingDiff, lastAdjusted, hp⟩ := process_inTime env.hashes env.fmtDouble cli
    call.blockHeader call.curtime ht
  obtain ⟨hcode, hdiff, -⟩ := judge_new env.fmtDouble job
    (hashOf env.hashes cli job share call.blockHeader) cli.currentDiff
  simp only [handleShare, hid, hj, hp, hd, not_false_eq_true, decide_true, settleShare, hcode]
  by_cases hb : Double.num job.base.targetDiff ≤ shareDifficulty (staticConf p)
      (hashOf env.hashes cli job share call.blockHeader)
  · simp only [hb, ↓reduceIte, acceptBlock, hdiff]
  · simp only [hb, ↓reduceIte, acceptShare, hdiff]

/-- They name the miner of the share's worker and the entry of the client's iterator. -/
theorem handleShare_credits {env : Env R} {srv : Server p R} {cli : StratumClient}
    {share : Share p} {call : Call} (h : Accepted env srv cli share call) :
    ∃ id, cli.getAuthorizedId share.worker = some id ∧ ∃ effort diff,
      (handleShare env srv cli share call).credits =
          [.addRoundSharePPLNS id.minerId effort, .addValidShare cli.statsIt diff] ∨
        (handleShare env srv cli share call).credits =
          [.addRoundShare id.minerId effort, .addRoundSharePPLNS id.minerId diff,
            .addValidShare cli.statsIt diff] := by
  obtain ⟨ha, job, hj, ht, hd⟩ := h
  obtain ⟨id, hid⟩ := Option.isSome_iff_exists.mp ha
  refine ⟨id, hid, ?_⟩
  rw [handleShare_credits_eq hid hj ht hd]
  split
  · exact ⟨_, _, .inl rfl⟩
  · exact ⟨_, _, .inr rfl⟩

/-- The entries of the statistics keep their owners. -/
theorem handleShare_owners (env : Env R) (srv : Server p R) (cli : StratumClient)
    (share : Share p) (call : Call) :
    (handleShare env srv cli share call).server.statsManager.owners = srv.statsManager.owners := by
  unfold handleShare
  split
  · rfl
  · split
    · exact StatsManager.update_owners _ _ _
    · unfold settleShare
      split
      · exact StatsManager.update_owners _ _ _
      · exact StatsManager.update_owners _ _ _
      · exact StatsManager.update_owners _ _ _

theorem judge_not_unauthorized (fmtDouble : Double → Bytes) (job : Job p) (hash : Hash32)
    (inserted : Bool) (currentDiff : Double) :
    (judge fmtDouble job hash inserted currentDiff).code ≠ .UNAUTHORIZED_WORKER := by
  cases inserted with
  | false => simp [judge_old]
  | true =>
    rw [(judge_new fmtDouble job hash currentDiff).1]
    split <;> simp

theorem process_not_unauthorized (hashes : Hashes) (fmtDouble : Double → Bytes)
    (cli : StratumClient) (blockHeader : Bytes) (job : Job p) (share : Share p)
    (curTime curtime : Nat) :
    (process hashes fmtDouble cli blockHeader job share curTime curtime).1.code ≠
      .UNAUTHORIZED_WORKER := by
  by_cases ht : TimeInRange job share curTime
  · rw [process, if_pos ht]
    apply judge_not_unauthorized
  · simp [process, ht]

theorem settleShare_not_unauthorized (env : Env R) (srv : Server p R) (id : FullId)
    (job : Job p) (share : Share p) (call : Call)
    {processed : ShareResult × StratumClient × Bytes}
    (h : processed.1.code ≠ .UNAUTHORIZED_WORKER) :
    (settleShare env srv id job share call processed).result.code ≠ .UNAUTHORIZED_WORKER := by
  unfold settleShare
  split
  · simp [acceptBlock]
  · simp [acceptShare]
  · exact h

/-- `HandleShare` answers `UNAUTHORIZED_WORKER` to unknown workers only. -/
theorem handleShare_unauthorized_iff (env : Env R) (srv : Server p R) (cli : StratumClient)
    (share : Share p) (call : Call) :
    (handleShare env srv cli share call).result.code = .UNAUTHORIZED_WORKER ↔
      cli.getAuthorizedId share.worker = none := by
  cases hid : cli.getAuthorizedId share.worker with
  | none => simp [handleShare, hid]
  | some id =>
    simp only [reduceCtorEq, iff_false]
    cases hj : srv.jobManager.getJob share.jobId with
    | none => simp [handleShare, hid, hj]
    | some job =>
      simp only [handleShare, hid, hj]
      apply settleShare_not_unauthorized
      apply process_not_unauthorized

/-! ## Credit -/

/-- The share deserves its credit: the checks pass and its difficulty reaches the network
target or 99% of the client's difficulty. -/
def Eligible (env : Env R) (srv : Server p R) (cli : StratumClient) (share : Share p)
    (call : Call) : Prop :=
  (cli.getAuthorizedId share.worker).isSome ∧ ∃ job, srv.jobManager.getJob share.jobId = some job ∧
    TimeInRange job share call.time ∧ ¬ Duplicate env.hashes cli job share call.blockHeader ∧
    (.num job.base.targetDiff ≤ shareDifficulty (staticConf p)
        (hashOf env.hashes cli job share call.blockHeader) ∨
      .num (99 / 100) * cli.currentDiff ≤ shareDifficulty (staticConf p)
        (hashOf env.hashes cli job share call.blockHeader))

/-- Only eligible shares are credited, and any other is answered with an error and
leaves the books alone. -/
def CreditSound (env : Env R) (srv : Server p R) (cli : StratumClient) (share : Share p)
    (call : Call) : Prop :=
  ((handleShare env srv cli share call).credits ≠ [] → Eligible env srv cli share call) ∧
    (¬ Eligible env srv cli share call → Untouched srv (handleShare env srv cli share call))

/-- The share passes the other checks and its difficulty is below both bounds. -/
def LowDifficulty (env : Env R) (srv : Server p R) (cli : StratumClient) (share : Share p)
    (call : Call) : Prop :=
  (cli.getAuthorizedId share.worker).isSome ∧ ∃ job, srv.jobManager.getJob share.jobId = some job ∧
    TimeInRange job share call.time ∧ ¬ Duplicate env.hashes cli job share call.blockHeader ∧
    ¬ .num job.base.targetDiff ≤ shareDifficulty (staticConf p)
        (hashOf env.hashes cli job share call.blockHeader) ∧
    ¬ .num (99 / 100) * cli.currentDiff ≤ shareDifficulty (staticConf p)
        (hashOf env.hashes cli job share call.blockHeader)

/-- **When credit is sound.** A call credits the miner for eligible shares only, and
answers every other share with an error that leaves efforts, pending shares and valid
counters alone, exactly when the share is not one that passes the other checks with a
difficulty below both bounds. -/
theorem credit_sound_iff (env : Env R) (srv : Server p R) (cli : StratumClient)
    (share : Share p) (call : Call) :
    CreditSound env srv cli share call ↔ ¬ LowDifficulty env srv cli share call := by
  constructor
  · rintro ⟨honly, -⟩ ⟨ha, job, hj, ht, hd, hlow, hlow'⟩
    obtain ⟨hcredit, -⟩ := handleShare_accepted ha hj ht hd
    obtain ⟨-, job', hj', -, -, hreach⟩ := honly hcredit
    obtain rfl : job = job' := Option.some.inj (hj.symm.trans hj')
    exact hreach.elim hlow hlow'
  · intro hlow
    -- outside the low-difficulty case the checks of the code are those of the predicate
    have hsame : Accepted env srv cli share call → Eligible env srv cli share call := by
      rintro ⟨ha, job, hj, ht, hd⟩
      refine ⟨ha, job, hj, ht, hd, ?_⟩
      by_contra hreach
      rw [not_or] at hreach
      exact hlow ⟨ha, job, hj, ht, hd, hreach⟩
    constructor
    · intro hcredit
      refine hsame ?_
      by_contra hacc
      exact hcredit (handleShare_rejected hacc).1.credits
    · intro hnot
      exact (handleShare_rejected (fun hacc => hnot (hsame hacc))).1

/-! ## A share of low difficulty -/

def constHashes (hash : Hash32) : Hashes where
  sha256d := fun _ => hash
  verushashV2b2 := fun _ => hash
  longhash := fun _ _ _ => hash
  cnFastHash := fun _ => hash
  unserializeBlock := fun _ => ⟨0, [], []⟩
  getBlockHash := fun _ => hash

def sampleConfig : CoinConfig where
  symbol := ascii "ZANO"
  defaultDiff := 1000000
  minimumDiff := 1
  targetSharesRate := 30
  retargetInterval := 60
  minPayoutThreshold := 0

def sampleEnv (hash : Hash32) : Env RoundDb where
  hashes := constHashes hash
  layer := RoundDb.roundLayer ⟨ascii "ZANO"⟩ RoundDb.answered
  config := sampleConfig
  validateAliasEncoding := fun _ => false
  getAliasAddress := fun _ => none
  fmtDouble := fun _ => []

def freshServer (hashes : Hashes) (res : BlockTemplateRes p) : Server p RoundDb where
  jobManager := JobManager.getFirstJob hashes res
  roundManager := ⟨[], [], ⟨0, 0, 0⟩⟩
  statsManager := ⟨[], []⟩
  store := ⟨⟨Db.empty, 0⟩, emptyStore, []⟩
  submitted := []

/-- A client of difficulty 1000000 with one authorised worker `w`. -/
def sampleClient : StratumClient :=
  (StratumClient.new ⟨0, 0, 0⟩ 0 0 1000000 30 60).authorizeWorker ⟨1, 1⟩ (ascii "w") 0

def sampleTemplate : BlockTemplateResCn where
  blob := []
  difficulty := 1000000000
  height := 1
  seed := []

def sampleTemplateZec (target : Bytes) : BlockTemplateResVrsc where
  version := 4
  prevBlockHash := List.replicate 64 48
  finalSrootHash := List.replicate 64 48
  solution := List.replicate 144 48
  transactions := [⟨[], List.replicate 64 48, 0⟩]
  coinbaseValue := 0
  target := target
  minTime := 0
  bits := 0
  height := 1

def newClient : StratumClient := StratumClient.new ⟨0, 0, 0⟩ 0 0 1 30 60

def sampleCall : Call := ⟨1000, 1000, [], List.Vector.replicate 7 0⟩

def submitParams (worker jobId : Bytes) : Params :=
  [some worker, some jobId, some (ascii "00000000"), some (List.replicate 56 48),
    some (List.replicate 2694 48)]

/-- The largest hash there is: its difficulty is a little over 256. -/
def maxHash : Hash32 := List.Vector.replicate 32 255

def zecServer : Server .ZEC RoundDb := freshServer (constHashes maxHash) (sampleTemplateZec [])

def sampleShare : ShareCn := ⟨ascii "w", hexlify maxHash.toList, [], 7⟩

/-- A share of a difficulty of about 256 from a client of difficulty 1000000, on a job of
difficulty 1000000000, is credited with the client's full difficulty. -/
theorem low_difficulty_share_credited :
    ¬ CreditSound (p := .CN) (sampleEnv maxHash) (freshServer (constHashes maxHash) sampleTemplate)
        sampleClient sampleShare sampleCall ∧
      (handleShare (p := .CN) (sampleEnv maxHash)
        (freshServer (constHashes maxHash) sampleTemplate) sampleClient sampleShare
        sampleCall).result.code = .OK ∧
      (handleShare (p := .CN) (sampleEnv maxHash)
        (freshServer (constHashes maxHash) sampleTemplate) sampleClient sampleShare
        sampleCall).server.roundManager.pendingShares = [⟨1, 1000000⟩] := by
  refine ⟨?_, by decide +kernel, by decide +kernel⟩
  rintro ⟨honly, -⟩
  obtain ⟨-, job, hj, -, -, hreach⟩ := honly (by decide +kernel)
  have hjob : (freshServer (p := .CN) (constHashes maxHash) sampleTemplate).jobManager.getJob
      sampleShare.jobId = some (JobCn.new (constHashes maxHash) sampleTemplate true) := rfl
  obtain rfl := Option.some.inj (hj.symm.trans hjob)
  have hlow : ¬ (Double.num 1000000000 ≤ shareDifficulty zanoStatic maxHash ∨
      Double.num (99 / 100) * 1000000 ≤ shareDifficulty zanoStatic maxHash) := by
    decide +kernel
  exact hlow hreach

end SickPool.Stratum
