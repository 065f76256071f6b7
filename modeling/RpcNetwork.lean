import RpcNetwork.Lib.ExceptRun
import RpcNetwork.Lib.SignGuard
import RpcNetwork.Lib.MachineWord
import RpcNetwork.Lib.RoundRobin
import RpcNetwork.Tbft.Help.BitArray
import RpcNetwork.Tbft.Help.BitArrayOps
import RpcNetwork.Tbft.Help.BitArrayJson
import RpcNetwork.Tbft.Help.BitArrayPredicates
import RpcNetwork.Tbft.Types.Vote
import RpcNetwork.Tbft.Types.ValidatorSet
import RpcNetwork.Tbft.Types.ProposerRotation
import RpcNetwork.Lib.SortedMap
import RpcNetwork.Tbft.Types.ValidatorSetMap
import RpcNetwork.Tbft.Types.VoteSet
import RpcNetwork.Lib.Quorum
import RpcNetwork.Tbft.Types.VoteSetInvariant
import RpcNetwork.Tbft.Types.VoteSetSafety
import RpcNetwork.Tbft.Types.VoteSetMaj23
import RpcNetwork.Tbft.Types.Commit
import RpcNetwork.Tbft.State.LastCommit
import RpcNetwork.Lib.MerkleTree
import RpcNetwork.Tbft.Help.SimpleProof
import RpcNetwork.Tbft.Types.PartSet
import RpcNetwork.Tbft.Types.PartSetRoundTrip
import RpcNetwork.Tbft.Types.HeightVoteSet
import RpcNetwork.Tbft.Types.HeightVoteSetInvariant
import RpcNetwork.Tbft.State.ConsensusState
import RpcNetwork.Tbft.State.VoteAuthenticity
import RpcNetwork.Tbft.Types.SignerTranscript
import RpcNetwork.Tbft.State.Preserved
import RpcNetwork.Tbft.State.VoteValidation
import RpcNetwork.Tbft.State.Equivocation
import RpcNetwork.Tbft.State.SwitchVerify
import RpcNetwork.Tbft.State.TimeoutTicker
import RpcNetwork.Lib.Curve25519
import RpcNetwork.Tbft.Tp2p.SecretConnection
import RpcNetwork.Lib.ByteBitmap
import RpcNetwork.Vm.Analysis
import RpcNetwork.Vm.AnalysisChecked
import RpcNetwork.Vm.ModExpGas
import RpcNetwork.Vm.Contract
import RpcNetwork.Vm.Memory
import RpcNetwork.Vm.JumpTable
import RpcNetwork.Vm.Interpreter
import RpcNetwork.Vm.MemorySafety
import RpcNetwork.Vm.ProgramCounter
import RpcNetwork.Core.Asm.Iterator
import RpcNetwork.Core.Asm.Compiler
import RpcNetwork.Lib.SwapPool
import RpcNetwork.Lib.FinmapCount
import RpcNetwork.P2p.Dial
import RpcNetwork.P2p.DialInvariant
import RpcNetwork.Lib.ExchangeSort
import RpcNetwork.Core.ForkId
import RpcNetwork.Core.StateTransition
import RpcNetwork.Lib.BigEndian
import RpcNetwork.Lib.ByteFile
import RpcNetwork.Core.Rawdb.FreezerTable
import RpcNetwork.Core.Rawdb.FreezerLayout
import RpcNetwork.Core.Rawdb.FreezerReachable
import RpcNetwork.Core.Rawdb.FreezerRepair
import RpcNetwork.Lib.Rlp
import RpcNetwork.Lib.GoMap
import RpcNetwork.Core.State.Snapshot.Journal
import RpcNetwork.Accounts.Abi.Codec
import RpcNetwork.Accounts.Abi.HeadLayout
import RpcNetwork.Lib.Prque
import RpcNetwork.Eth.Downloader.Queue
import RpcNetwork.Lib.AListSum
import RpcNetwork.Eth.Downloader.QueueInvariant
import RpcNetwork.Consensus.Clique.Snapshot
import RpcNetwork.Consensus.Clique.SnapshotTally
import RpcNetwork.Consensus.Clique.SnapshotInvariant
import RpcNetwork.Consensus.Ethash.Difficulty
import RpcNetwork.Consensus.Ethash.GasLimit
import RpcNetwork.Les.ClientPool
import RpcNetwork.Les.ClientPoolAccounting
import RpcNetwork.Core.Bloombits.Generator
import RpcNetwork.Core.Bloombits.Matcher
import RpcNetwork.Core.Bloombits.MatcherEmit
import RpcNetwork.Core.Bloombits.MatcherChain
import RpcNetwork.Core.Bloombits.MatcherCorrect
import RpcNetwork.Lib.LeastK
import RpcNetwork.P2p.Enode.Node
import RpcNetwork.P2p.Discover.NodesByDistance
import RpcNetwork.Lib.Tiling
import RpcNetwork.P2p.Peer
import RpcNetwork.P2p.PeerMultiplex
import RpcNetwork.P2p.Server
import RpcNetwork.Lib.RlpStream
import RpcNetwork.P2p.Enr.Record
import RpcNetwork.P2p.Enr.Codec
import RpcNetwork.P2p.Netutil
import RpcNetwork.P2p.Discover.Table
import RpcNetwork.Lib.FlagSet
import RpcNetwork.P2p.Nodestate.Machine
import RpcNetwork.P2p.Nodestate.Bookkeeping
import RpcNetwork.P2p.Nodestate.Notify
import RpcNetwork.Tbft.Types.SafeArith
import RpcNetwork.Lib.WeightedPick
import RpcNetwork.Les.WeightedSelect
import RpcNetwork.Les.WeightedSelectTree
import RpcNetwork.Les.WeightedSelectInvariant
import RpcNetwork.Tbft.Tp2p.Pex.AddrBook
import RpcNetwork.Tbft.Tp2p.Pex.AddrBookOverflow
