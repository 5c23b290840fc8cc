import SickPool.Library.Run
import SickPool.Library.Bytes
import SickPool.Library.Table
import SickPool.Library.Tally
import SickPool.StaticConfig
import SickPool.Utils.HexUtils
import SickPool.Persistence.Schema
import SickPool.Persistence.MySqlManager
import SickPool.Blocks.BlockWatcher
import SickPool.Persistence.Ledger
import SickPool.Blocks.Maturation
import SickPool.Blocks.MainChain
import SickPool.Library.Double
import SickPool.Library.Json
import SickPool.Library.JsonRules
import SickPool.Difficulty.VarDiff
import SickPool.Stratum.StratumClient
import SickPool.Jobs.Job
import SickPool.Jobs.JobManager
import SickPool.Round.RoundManager
import SickPool.Stats.StatsManager
import SickPool.Crypto.Base58
import SickPool.Daemon.DaemonRpc
import SickPool.Daemon.DaemonManagerZano
import SickPool.Shares.ShareProcessor
import SickPool.Stratum.StratumServer
import SickPool.Stratum.HandleShare
import SickPool.Shares.BlockDetection
import SickPool.Stratum.Header
import SickPool.Stratum.SubmittedBlock
import SickPool.Stratum.HandleAuthorize
import SickPool.Stratum.System
import SickPool.Stratum.SystemSteps
import SickPool.Stratum.Authorization
import SickPool.Stratum.Payments
import SickPool.Round.RoundEffort
import SickPool.Round.PendingShares
import SickPool.Round.RedisRound
import SickPool.Round.ShareWindow
import SickPool.Persistence.Balances
import SickPool.Payouts.RoundShare
import SickPool.Payouts.Main
import SickPool.Payouts.PayoutLedger
import SickPool.Payouts.FeeSplit
import SickPool.Blocks.Settlement
import SickPool.Stratum.AliasLogin
import SickPool.Stratum.CreditRouting
import SickPool.Stratum.Messages
import SickPool.Stratum.SetTarget
import SickPool.Stratum.WorkTarget
import SickPool.Jobs.JobWindow
import SickPool.Library.Lines
import SickPool.Stratum.HandleReadable
import SickPool.Stratum.HandleReq
import SickPool.Persistence.RedisManager
import SickPool.Stats.RedisStats
import SickPool.Stats.TimeSeries
import SickPool.Stats.IntervalBooks
import SickPool.Round.RoundStore
import SickPool.Stratum.Service
import SickPool.Stratum.ExtraNonce
import SickPool.Payouts.PayoutRecords
import SickPool.Library.Merkle
import SickPool.Crypto.MerkleRoot
import SickPool.Shares.HashValue
import SickPool.Stratum.Target
import SickPool.Jobs.BlockBytes
import SickPool.Payouts.PayoutManager
import SickPool.Persistence.BlockInsertion
import SickPool.Round.CloseRound
import SickPool.Stratum.SubmitParams
import SickPool.Library.Ring
import SickPool.Difficulty.ShareTimes
import SickPool.Difficulty.Retarget
import SickPool.Stratum.ClientHistory
import SickPool.Crypto.MerkleSteps
import SickPool.Stratum.ShareWeight
import SickPool.Library.CString
import SickPool.Library.Http
import SickPool.Daemon.SendRequest
import SickPool.Daemon.HttpReply
import SickPool.Daemon.CompleteReply
import SickPool.Daemon.DaemonManager
import SickPool.Stratum.ClientSweep
import SickPool.Jobs.TemplateIdentity
import SickPool.Stratum.Backlog
import SickPool.Payouts.Schedule
import SickPool.Payouts.RewardsProp
import SickPool.Jobs.NumScript
import SickPool.Utils.ReverseHex
import SickPool.Ethash.Primes
import SickPool.Ethash.Dataset
import SickPool.Library.Absorb
import SickPool.Library.Keccak
import SickPool.Crypto.Keccak
import SickPool.Ethash.KeccakF
import SickPool.Ethash.Progpow
import SickPool.Ethash.ProgpowProgram
import SickPool.Library.LazyTable
import SickPool.Ethash.Managed
import SickPool.Ethash.LongHash
import SickPool.Ethash.LongHashReturns
import SickPool.Crypto.VerusHash
import SickPool.Crypto.VerusHashes
import SickPool.Crypto.Sha256
import SickPool.Library.Radix
import SickPool.Crypto.Base58RoundTrip
import SickPool.Crypto.TreeHash
import SickPool.Crypto.Varint
import SickPool.Stats.UpdateSchedule
import SickPool.Jobs.HashingBlob
import SickPool.Jobs.TemplateBinding
import SickPool.Stratum.Control
