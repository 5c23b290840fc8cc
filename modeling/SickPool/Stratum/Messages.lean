import SickPool.Stratum.StratumServer

/-!
# Messages to a miner

What the server sends on a connection: the answers of `SendRes` and the messages that carry a
target, with the conversion of a difficulty into the text of its target.
-/
namespace SickPool.Stratum

open SickPool.Library SickPool.Library.Bytes SickPool.Utils SickPool.Jobs SickPool.Shares

/-! ## Targets -/

/-- `static_cast<uint8_t>(fmod(d, 256.0))`. -/
def lowByte : Double → UInt8
  | .num q => UInt8.ofNat q.floor.toNat
  | _ => 0

/-- The loop of `DoubleToBin256` with `n` bytes of the array still to write: these bytes.
`none` when it writes in front of the array. -/
def binLoop : Nat → Double → Option Bytes
  | 0, d => if 1 ≤ d then none else some []
  | n + 1, d => if 1 ≤ d then (binLoop n (d / 256)).map (· ++ [lowByte d])
    else some (List.replicate (n + 1) 0)

def doubleToBin256 (d : Double) : Option Bytes := binLoop 32 d

/-- `GetDifficultyHex`; `none` for a target of more than 32 bytes. -/
def getDifficultyHex (confs : StaticConf) (diff : Double) : Option Bytes :=
  (doubleToBin256 (.num confs.DIFF1 * (1 / diff))).map hexlify

/-! ## Texts -/

/-- The message of `StratumServerZec::UpdateDifficulty`. -/
def setTargetMessage (target : Bytes) : Bytes :=
  ascii "\x7b\"id\":null,\"method\":\"mining.set_target\",\"params\":[\"" ++ target ++
    ascii "\"]\x7d\n"

/-- The text of `GetWorkMessage`; the answer to `eth_getWork` also carries its id. -/
def workMessage (job : JobCn) (id : Option Int) (target : Bytes) : Bytes :=
  ascii "\x7b\"jsonrpc\":\"2.0\"," ++
    (match id with
      | some id => ascii "\"id\":" ++ ascii (toString id) ++ ascii ","
      | none => []) ++
    ascii "\"result\":[\"0x" ++ job.id ++ ascii "\",\"0x" ++ job.seed ++ ascii "\",\"0x" ++
    target ++ ascii "\",\"0x" ++ fmtHex 16 job.height ++ ascii "\"]\x7d\n"

def getWorkMessage (confs : StaticConf) (job : JobCn) (diff : Double) (id : Option Int) :
    Option Bytes :=
  (getDifficultyHex confs diff).map (workMessage job id)

def resCode : ResCode → Nat
  | .OK => 1
  | .UNKNOWN => 20
  | .JOB_NOT_FOUND => 21
  | .DUPLICATE_SHARE => 22
  | .LOW_DIFFICULTY_SHARE => 23
  | .UNAUTHORIZED_WORKER => 24
  | .NOT_SUBSCRIBED => 25
  | .VALID_SHARE => 30
  | .VALID_BLOCK => 31

/-- The message of `SendRes`. -/
def resMessage (reqId : Int) (res : RpcResult) : Bytes :=
  let id := ascii "\x7b\"id\":" ++ ascii (toString reqId) ++ ascii ",\"jsonrpc\":\"2.0\","
  if res.code = .OK then id ++ ascii "\"error\":null,\"result\":" ++ res.msg ++ ascii "\x7d\n"
  else id ++ ascii "\"result\":null,\"error\":[" ++ fmtDec (resCode res.code) ++ ascii ",\"" ++
    res.msg ++ ascii "\",null]\x7d\n"

/-- The kinds of message to a ZEC miner, each with its text. -/
inductive Message where
  | res (msg : Bytes)
  | setTarget (msg : Bytes)
  | notify (msg : Bytes)
  deriving DecidableEq

def Message.target? : Message → Option Bytes
  | .setTarget msg => some msg
  | _ => none

end SickPool.Stratum
