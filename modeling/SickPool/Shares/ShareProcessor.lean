import SickPool.Jobs.JobManager
import SickPool.Stratum.StratumClient

/-!
# The share processor

`ShareProcessor::Process`, instantiated for the two protocols with a server. The parts
under `if constexpr` are functions of the protocol; the rest is common to both.
-/
namespace SickPool.Shares

open SickPool.Library SickPool.Library.Bytes SickPool.Utils SickPool.Crypto SickPool.Jobs
open SickPool.Stratum (StratumClient)

/-- `ResCode`; the numbers are those sent to the miner. -/
inductive ResCode where
  | OK
  | UNKNOWN
  | JOB_NOT_FOUND
  | DUPLICATE_SHARE
  | LOW_DIFFICULTY_SHARE
  | UNAUTHORIZED_WORKER
  | NOT_SUBSCRIBED
  | VALID_SHARE
  | VALID_BLOCK
  deriving DecidableEq, Repr

structure RpcResult where
  code : ResCode
  msg : Bytes := ascii "true"
  deriving DecidableEq

structure ShareResult where
  code : ResCode
  message : Bytes
  difficulty : Double
  hashBytes : Hash32

def staticConf : StratumProtocol → StaticConf
  | .ZEC => vrscStatic
  | .CN => zanoStatic

variable {p : StratumProtocol}

/-- The last time a ZEC share may carry, at a clock reading in milliseconds. -/
def maxTime (confs : StaticConf) (curTime : Nat) : Nat :=
  curTime / 1000 + confs.MAX_FUTURE_BLOCK_TIME

def TimeInRange : {p : StratumProtocol} → Job p → Share p → Nat → Prop
  | .ZEC, job, share, curTime =>
    JobZec.minTime job ≤ ShareZec.time share ∧ ShareZec.time share ≤ maxTime vrscStatic curTime
  | .CN, _, _, _ => True

instance : {p : StratumProtocol} → (job : Job p) → (share : Share p) → (curTime : Nat) →
    Decidable (TimeInRange job share curTime)
  | .ZEC, _, _, _ => inferInstanceAs (Decidable (_ ∧ _))
  | .CN, _, _, _ => inferInstanceAs (Decidable True)

/-- `Invalid nTime (min: .., max: .., given: ..)`. -/
def timeMessage : {p : StratumProtocol} → Job p → Share p → Nat → Bytes
  | .ZEC, job, share, curTime =>
    ascii "Invalid nTime (min: " ++ fmtDec (JobZec.minTime job) ++ ascii ", max: " ++
      fmtDec (maxTime vrscStatic curTime) ++ ascii ", given: " ++
      fmtDec (ShareZec.time share) ++ ascii ")"
  | .CN, _, _, _ => []

/-- `GetHeaderData` into the buffer of the worker thread; there is none for CN. -/
def getHeaderData : {p : StratumProtocol} → Job p → Bytes → Share p → Nat → Bytes
  | .ZEC, job, buff, share, extraNonce => JobZec.getHeaderData job buff share extraNonce
  | .CN, _, buff, _, _ => buff

/-- The proof-of-work hash of a share: of the header for ZEC, of height, template hash
and nonce for CN. -/
def powHash (hashes : Hashes) : {p : StratumProtocol} → Job p → Bytes → Share p → Hash32
  | .ZEC, _, header, _ => hashes.verushashV2b2 header
  | .CN, job, _, share =>
    hashes.longhash (JobCn.toJobBase job).height (JobCn.templateHash job) (ShareCn.nonce share)

/-- `share_start`: the first four bytes of the hash. -/
def shareStart (hash : Hash32) : Nat := leNat (hash.toList.take 4)

/-- `confs.DIFF1 / BytesToDoubleLE(hash)`. -/
def shareDifficulty (confs : StaticConf) (hash : Hash32) : Double :=
  .num confs.DIFF1 / .num (bytesToDoubleLE hash.toList)

/-- `Low difficulty share of .. (Expected: ..)`. -/
def lowDifficultyMessage (fmtDouble : Double → Bytes) (difficulty expected : Double) : Bytes :=
  ascii "Low difficulty share of " ++ fmtDouble difficulty ++ ascii " (Expected: " ++
    fmtDouble expected ++ ascii ")"

/-- The part of `Process` after the hash was taken and `SetLastShare` was called:
`inserted` is what it returned, `currentDiff` the client's difficulty. -/
def judge (fmtDouble : Double → Bytes) (job : Job p) (hash : Hash32) (inserted : Bool)
    (currentDiff : Double) : ShareResult :=
  if inserted = false then ⟨.DUPLICATE_SHARE, ascii "Duplicate share", 0, hash⟩
  else
    let difficulty := shareDifficulty (staticConf p) hash
    if .num job.base.targetDiff ≤ difficulty then ⟨.VALID_BLOCK, [], difficulty, hash⟩
    else
      let result : ShareResult :=
        if difficulty / currentDiff < .num (99 / 100) then
          ⟨.LOW_DIFFICULTY_SHARE, lowDifficultyMessage fmtDouble difficulty currentDiff,
            difficulty, hash⟩
        else ⟨.UNKNOWN, [], difficulty, hash⟩
      { result with code := .VALID_SHARE }

/-- `Process`: the result, the client and the buffer of the worker thread. `curtime` is
the second clock reading, by `SetPendingDifficulty`. -/
def process (hashes : Hashes) (fmtDouble : Double → Bytes) (cli : StratumClient)
    (blockHeader : Bytes) (job : Job p) (share : Share p) (curTime curtime : Nat) :
    ShareResult × StratumClient × Bytes :=
  if TimeInRange job share curTime then
    let header := getHeaderData job blockHeader share cli.extraNonce
    let hash := powHash hashes job header share
    let last := cli.setLastShare (shareStart hash) curTime curtime
    (judge fmtDouble job hash last.2 last.1.currentDiff, last.1, header)
  else
    (⟨.UNKNOWN, timeMessage job share curTime, 0, List.Vector.replicate 32 0⟩, cli, blockHeader)

end SickPool.Shares
