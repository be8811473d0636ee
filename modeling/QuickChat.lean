import QuickChat.Chat.CSession
import QuickChat.Gate.Backend
import QuickChat.Proof.Accounts
import QuickChat.Proof.AsioIOServicePool
import QuickChat.Proof.Availability
import QuickChat.Proof.Backend
import QuickChat.Proof.BackendStores
import QuickChat.Proof.CallOrder
import QuickChat.Proof.ConPools
import QuickChat.Proof.Delivery
import QuickChat.Proof.Documents
import QuickChat.Proof.Escapes
import QuickChat.Proof.GateDeadline
import QuickChat.Proof.GateRelease
import QuickChat.Proof.GrpcPool
import QuickChat.Proof.Handoff
import QuickChat.Proof.HeaderChecks
import QuickChat.Proof.HttpReply
import QuickChat.Proof.HttpResponse
import QuickChat.Proof.Interleavings
import QuickChat.Proof.Login
import QuickChat.Proof.MySqlCheck
import QuickChat.Proof.MysqlPool
import QuickChat.Proof.PoolDrain
import QuickChat.Proof.Provenance
import QuickChat.Proof.QueryReference
import QuickChat.Proof.QueryRoundTrip
import QuickChat.Proof.ReadBounds
import QuickChat.Proof.ReadEnd
import QuickChat.Proof.RedisCheck
import QuickChat.Proof.RedisLedger
import QuickChat.Proof.RedisReplies
import QuickChat.Proof.RedisStore
import QuickChat.Proof.RedisWait
import QuickChat.Proof.RegUser
import QuickChat.Proof.Replies
import QuickChat.Proof.Returns
import QuickChat.Proof.RoundTrip
import QuickChat.Proof.Selection
import QuickChat.Proof.SendFrames
import QuickChat.Proof.ServerTable
import QuickChat.Proof.Sessions
import QuickChat.Proof.StatusCapacity
import QuickChat.Proof.Tokens
import QuickChat.Proof.VerifyKey
import QuickChat.Proof.VerifyRequest
import QuickChat.Proof.Wakeup
import QuickChat.Proof.Acknowledged
