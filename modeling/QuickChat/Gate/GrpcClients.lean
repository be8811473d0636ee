import QuickChat.Lib.Monitor
import QuickChat.Status.StatusServiceImpl
import QuickChat.Verify.VerifyServer

/-!
# The gRPC clients and their pools

`VerifyGrpcClient` and `StatusGrpcClient` have a pool of stubs each. A call takes a stub from its pool,
makes the RPC with it, and puts it back: the one on either branch behind the RPC, the other by a `Defer`
that is declared behind it. A stub is the number of its channel, and until the pool is destroyed
`getConnection` returns no null.
-/

namespace QuickChat

structure GetVerifyReq where
  email : Bytes
  deriving DecidableEq, Repr

structure GetChatServerReq where
  uid : Int32
  deriving DecidableEq

inductive GrpcEffect (κ : Type) where
  | GetVerifyCode (stub : κ) (request : GetVerifyReq)
  | GetChatServer (stub : κ) (request : GetChatServerReq)

/-- `status.ok()`, and what has been written to the reply. -/
def GrpcEffect.Reply {κ : Type} : GrpcEffect κ → Type
  | GetVerifyCode _ _ => Bool × GetVerifyRsp
  | GetChatServer _ _ => Bool × GetChatServerRsp

abbrev GrpcProgram (κ α : Type) := PoolProgram κ (@GrpcEffect.Reply κ) α

namespace RPConPool

variable {κ ω α : Type}

def getConnection : GrpcProgram κ κ := Program.perform PoolEffect.getConnection

def returnConnection (context : κ) : GrpcProgram κ Unit := do
  let _ ← Program.perform (PoolEffect.returnConnection context)

/-- What the rest of a function returns is computed before the `Defer` is destroyed. -/
def defer (action : GrpcProgram κ Unit) (rest : GrpcProgram κ α) : GrpcProgram κ α := do
  let result ← rest
  action
  return result

end RPConPool

open RPConPool

namespace VerifyGrpcClient

variable {κ : Type}

def GetVerifyCode (email : Bytes) : GrpcProgram κ GetVerifyRsp := do
  let request : GetVerifyReq := ⟨email⟩
  let stub ← getConnection
  let (ok, reply) ← Program.perform (PoolEffect.other (GrpcEffect.GetVerifyCode stub request))
  if ok then
    returnConnection stub
    return reply
  else
    returnConnection stub
    return { reply with error := ErrorCodes.RPCFailed.value }

end VerifyGrpcClient

namespace StatusGrpcClient

variable {κ : Type}

def GetChatServer (uid : Int32) : GrpcProgram κ GetChatServerRsp := do
  let request : GetChatServerReq := ⟨uid⟩
  let stub ← getConnection
  let (ok, reply) ← Program.perform (PoolEffect.other (GrpcEffect.GetChatServer stub request))
  defer (returnConnection stub) do
    if ok then
      return reply
    else
      return { reply with error := ErrorCodes.RPCFailed.value }

end StatusGrpcClient

/-- A pool of `poolSize` stubs, with the calls `ω` of its client. -/
abbrev RPConPool (poolSize : Nat) (ω α : Type) :=
  Monitor.System ω (Fin poolSize) (@GrpcEffect.Reply (Fin poolSize)) α

abbrev RPConPool.Event (poolSize : Nat) (ω : Type) :=
  Monitor.Event ω (Fin poolSize) (@GrpcEffect.Reply (Fin poolSize))

def RPConPool.new (poolSize : Nat) {ω α : Type} : RPConPool poolSize ω α :=
  Monitor.start (List.finRange poolSize)

structure GrpcClients (verifySize statusSize : Nat) where
  verify : RPConPool verifySize Bytes GetVerifyRsp
  status : RPConPool statusSize Int32 GetChatServerRsp

inductive GrpcClients.Event (verifySize statusSize : Nat) where
  | verify (event : RPConPool.Event verifySize Bytes)
  | status (event : RPConPool.Event statusSize Int32)

namespace GrpcClients

variable {verifySize statusSize : Nat}

def init : GrpcClients verifySize statusSize := ⟨RPConPool.new verifySize, RPConPool.new statusSize⟩

def step (clients : GrpcClients verifySize statusSize) :
    Event verifySize statusSize → Option (GrpcClients verifySize statusSize)
  | .verify event =>
      (Monitor.step VerifyGrpcClient.GetVerifyCode clients.verify event).map fun pool =>
        { clients with verify := pool }
  | .status event =>
      (Monitor.step StatusGrpcClient.GetChatServer clients.status event).map fun pool =>
        { clients with status := pool }

end GrpcClients

end QuickChat
