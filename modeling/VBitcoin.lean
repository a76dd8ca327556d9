import VBitcoin.ConnectUndo
import VBitcoin.CrashRecovery
import VBitcoin.MoneySupply
import VBitcoin.BlockTransport
import VBitcoin.PopTree
import VBitcoin.CandidateRuns
import VBitcoin.SkipList
import VBitcoin.VersionBits
import VBitcoin.CompactRelay
import VBitcoin.Difficulty
import VBitcoin.FlagMonotonicity
import VBitcoin.PsbtDecode
import VBitcoin.TestBlockValidity
import VBitcoin.IndexSync
import VBitcoin.BlockRequests
import VBitcoin.CheckQueueWait
import VBitcoin.BaseUint
import VBitcoin.CompactTarget
import VBitcoin.Emission
import VBitcoin.TransactionRequest
import VBitcoin.VarInts
import VBitcoin.MerkleProofs
import VBitcoin.LockPoints
import VBitcoin.Pruning
import VBitcoin.Multisig
import VBitcoin.ReceiveBuffer
import VBitcoin.Eviction
import VBitcoin.Knapsack
import VBitcoin.HashVector
import VBitcoin.ScriptPushes
