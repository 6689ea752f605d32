import BinaryCoin.Address
import BinaryCoin.Addrv2
import BinaryCoin.Affordable
import BinaryCoin.BanStore
import BinaryCoin.BlockRecord
import BinaryCoin.BlockReport
import BinaryCoin.Bootstrap
import BinaryCoin.BranchSessions
import BinaryCoin.CandidateInvariant
import BinaryCoin.ChainWork
import BinaryCoin.ChainstateText
import BinaryCoin.Endpoint
import BinaryCoin.Fees
import BinaryCoin.Frame
import BinaryCoin.Guarantees
import BinaryCoin.HeaderSync
import BinaryCoin.JsonPrint
import BinaryCoin.Lifetime
import BinaryCoin.Mined
import BinaryCoin.PeerMerge
import BinaryCoin.Recovery
import BinaryCoin.Reindex
import BinaryCoin.Reorganization
import BinaryCoin.Restart
import BinaryCoin.RpcAuth
import BinaryCoin.ScriptNumber
import BinaryCoin.SessionLoop
import BinaryCoin.Sessions
import BinaryCoin.Signature
import BinaryCoin.WalletAmount
import BinaryCoin.Writers
import BinaryCoin.HostilePeer
