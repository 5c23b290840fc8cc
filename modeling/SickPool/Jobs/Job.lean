import SickPool.Crypto.MerkleTree
import SickPool.Library.Double
import SickPool.StaticConfig

/-!
# Jobs

The two kinds of job, `Job<StratumProtocol::ZEC>` and `Job<StratumProtocol::CN>`, with
the part they have in common.
-/
namespace SickPool.Jobs

open SickPool.Library SickPool.Library.Bytes SickPool.Utils SickPool.Crypto

/-- The members of a job that the server reads for every protocol. -/
structure JobBase where
  id : Bytes
  clean : Bool
  height : Nat
  targetDiff : ℚ
  expectedHashes : ℚ
  blockSize : Nat
  coinbaseValue : Nat
  txCount : Nat

/-! ## ZEC -/

structure TxRes where
  data : Bytes
  hash : Bytes
  fee : Int

structure BlockTemplateResVrsc where
  version : Nat
  prevBlockHash : Bytes
  finalSrootHash : Bytes
  solution : Bytes
  transactions : List TxRes
  coinbaseValue : Nat
  target : Bytes
  minTime : Nat
  bits : Nat
  height : Nat

/-- `Job<StratumProtocol::ZEC>`: `BlockTemplateZec` and `JobBaseBtc`. -/
structure JobZec extends JobBase where
  version : Nat
  prevBlockHash : Hash32
  merkleRootHash : Hash32
  finalSrootHash : Hash32
  minTime : Nat
  bits : Nat
  notifyMsg : Bytes
  transactionsHex : Bytes

/-- The loop of `GenNumScript`: base 256 digits, least significant first. -/
def absBytes : Nat → Nat → Bytes
  | 0, _ => []
  | fuel + 1, n => if n = 0 then [] else UInt8.ofNat (n % 256) :: absBytes fuel (n / 256)

def genNumScript (value : Nat) : Bytes :=
  if value = 0 then [0]
  else
    let result := absBytes 8 value
    if 128 ≤ result.getLastD 0 then result ++ [0] else result

def getTransactionHex (txs : List TxRes) : Bytes :=
  hexlify (genNumScript txs.length) ++ txs.flatMap (·.data)

/-- `GenerateNotifyMessage` with its default argument for `clean`. -/
def generateNotifyMessage (jobid solution : Bytes) (version minTime bits : Nat)
    (prevBlockHash merkleRootHash finalSrootHash : Hash32) : Bytes :=
  ascii "\x7b\"id\":null,\"method\":\"mining.notify\",\"params\":[\"" ++ jobid ++
    ascii "\",\"" ++ fmtHex 8 (bswap 4 version) ++
    ascii "\",\"" ++ hexlify prevBlockHash.toList ++
    ascii "\",\"" ++ hexlify merkleRootHash.toList ++
    ascii "\",\"" ++ hexlify finalSrootHash.toList ++
    ascii "\",\"" ++ fmtHex 8 (bswap 4 minTime) ++
    ascii "\",\"" ++ fmtHex 8 (bswap 4 bits) ++
    ascii "\",true,\"" ++ solution.take 144 ++ ascii "\"]\x7d\n"

/-- The constructor of `Job<StratumProtocol::ZEC>`. Its last argument is not used: the
job is made with the default `clean = true` of `JobBaseBtc`. -/
def JobZec.new (hashes : Hashes) (jobId : Bytes) (bTemplate : BlockTemplateResVrsc)
    (_isPayment : Bool) : JobZec :=
  let prevBlockHash : Hash32 := ⟨(toArray 32 (unhexlify bTemplate.prevBlockHash)).toList.reverse,
    by simp⟩
  let merkleRootHash := MerkleTree.calcRoot hashes.sha256d
    (MerkleTree.getHashes (bTemplate.transactions.map (·.hash)))
  let finalSrootHash : Hash32 :=
    ⟨(toArray 32 (unhexlify bTemplate.finalSrootHash)).toList.reverse, by simp⟩
  { id := jobId
    clean := true
    height := bTemplate.height
    targetDiff := hexToDouble bTemplate.target
    expectedHashes := 0
    blockSize := 0
    coinbaseValue := bTemplate.coinbaseValue
    txCount := bTemplate.transactions.length % 2 ^ 32
    version := bTemplate.version
    prevBlockHash := prevBlockHash
    merkleRootHash := merkleRootHash
    finalSrootHash := finalSrootHash
    minTime := bTemplate.minTime
    bits := bTemplate.bits
    notifyMsg := generateNotifyMessage jobId bTemplate.solution bTemplate.version
      bTemplate.minTime bTemplate.bits prevBlockHash merkleRootHash finalSrootHash
    transactionsHex := getTransactionHex bTemplate.transactions }

structure ShareZec where
  worker : Bytes
  jobId : Bytes
  nonce2 : Bytes
  solution : Bytes
  time : Nat

/-- `Job<StratumProtocol::ZEC>::GetHeaderData` on a buffer, for texts of the two lengths. The
only others that a submit lets through are missing, and the process dies of their null pointers
in `Unhexlify`. -/
def JobZec.getHeaderData (job : JobZec) (buff : Bytes) (share : ShareZec) (nonce1 : Nat) : Bytes :=
  let buff := writeAt buff 0 (leBytes 4 job.version ++ job.prevBlockHash.toList ++
    job.merkleRootHash.toList ++ job.finalSrootHash.toList)
  let buff := writeAt buff 100 (leBytes 4 share.time)
  let buff := writeAt buff 104 (leBytes 4 job.bits)
  let buff := writeAt buff 108 (leBytes 4 nonce1)
  let buff := writeAt buff 112 (unhexlify (share.nonce2.take 56))
  writeAt buff 140 (unhexlify (share.solution.take 2694))

def JobZec.getBlockHex (job : JobZec) (blockHeader : Bytes) : Bytes :=
  hexlify blockHeader ++ job.transactionsHex

/-! ## CN -/

structure BlockTemplateResCn where
  blob : Bytes
  difficulty : Nat
  height : Nat
  seed : Bytes

/-- `Job<StratumProtocol::CN>`: `BlockTemplateCn` and `JobBase`. -/
structure JobCn extends JobBase where
  blockBin : Bytes
  seed : Bytes
  templateHash : Hash32
  txSum : Nat

/-- `GetTxSum`: the first 32 bits of every transaction hash, summed in 64 bits. -/
def getTxSum (block : CnBlock) : Nat :=
  (block.txHashes.map (fun h => leNat (h.toList.take 4))).sum % 2 ^ 64

def JobCn.new (hashes : Hashes) (bTemplate : BlockTemplateResCn) (clean : Bool) : JobCn :=
  let blockBin := unhexlify bTemplate.blob
  let block := hashes.unserializeBlock blockBin
  let templateHash := hashes.cnFastHash block.hashingBlob
  { id := hexlify templateHash.toList
    clean := clean
    height := bTemplate.height
    targetDiff := bTemplate.difficulty
    expectedHashes := 2 ^ 256 / zanoStatic.DIFF1 * bTemplate.difficulty
    blockSize := bTemplate.blob.length / 2 % 2 ^ 32
    coinbaseValue := block.minerReward
    txCount := (block.txHashes.length + 1) % 2 ^ 32
    blockBin := blockBin
    seed := bTemplate.seed
    templateHash := templateHash
    txSum := getTxSum block }

structure ShareCn where
  worker : Bytes
  jobId : Bytes
  mixDigest : Bytes
  nonce : Nat

/-- The template with a nonce set. The source copies eight 64-bit words into eight
characters; `beyond` holds the low bytes of the seven words behind the nonce. -/
def JobCn.setNonce (job : JobCn) (beyond : List.Vector UInt8 7) (nonce : Nat) : Bytes :=
  writeAt job.blockBin 1 (UInt8.ofNat (nonce % 256) :: beyond.toList)

def JobCn.getBlockHex (job : JobCn) (beyond : List.Vector UInt8 7) (nonce : Nat) : Bytes :=
  hexlify (job.setNonce beyond nonce)

def JobCn.getBlockHash (hashes : Hashes) (job : JobCn) (beyond : List.Vector UInt8 7)
    (nonce : Nat) : Hash32 :=
  hashes.getBlockHash (job.setNonce beyond nonce)

/-! ## Both protocols -/

def Job : StratumProtocol → Type
  | .ZEC => JobZec
  | .CN => JobCn

def Share : StratumProtocol → Type
  | .ZEC => ShareZec
  | .CN => ShareCn

def BlockTemplateRes : StratumProtocol → Type
  | .ZEC => BlockTemplateResVrsc
  | .CN => BlockTemplateResCn

def Job.base : {p : StratumProtocol} → Job p → JobBase
  | .ZEC, job => JobZec.toJobBase job
  | .CN, job => JobCn.toJobBase job

def Share.worker : {p : StratumProtocol} → Share p → Bytes
  | .ZEC, share => ShareZec.worker share
  | .CN, share => ShareCn.worker share

def Share.jobId : {p : StratumProtocol} → Share p → Bytes
  | .ZEC, share => ShareZec.jobId share
  | .CN, share => ShareCn.jobId share

def BlockTemplateRes.height : {p : StratumProtocol} → BlockTemplateRes p → Nat
  | .ZEC, res => BlockTemplateResVrsc.height res
  | .CN, res => BlockTemplateResCn.height res

/-- `std::make_shared<Job>`: a CN job is named by its template hash, a ZEC job by the
number of jobs before it. -/
def Job.make (hashes : Hashes) (jobCount : Nat) :
    {p : StratumProtocol} → BlockTemplateRes p → Bool → Job p
  | .ZEC, res, clean => JobZec.new hashes (fmtHex 8 jobCount) res clean
  | .CN, res, clean => JobCn.new hashes res clean

/-- `operator==`. -/
def Job.same : {p : StratumProtocol} → Job p → Job p → Bool
  | .ZEC, a, b => decide (JobZec.merkleRootHash a = JobZec.merkleRootHash b)
  | .CN, a, b => decide (JobCn.txSum a = JobCn.txSum b)

end SickPool.Jobs
