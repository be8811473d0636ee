import QuickChat.Lib.Monitor
import QuickChat.Status.StatusServer

/-!
# The status service over its pool of contexts

Any number of `GetChatServer` and `Login` calls share the contexts of `RedisMgr`, with whatever replies
come back over them. A `GetChatServer` call is given the table as it finds it; which calls get the mutex
of the table is left open.
-/

namespace QuickChat

inductive StatusOp where
  | GetChatServer (servers_ : ServerTable) (uid : Int32) (uuid : Uuid)
  | Login (uid : Int32) (token : Bytes)

def StatusOp.program {κ : Type} : StatusOp → RedisProgram κ StatusReply
  | GetChatServer servers_ uid uuid => do
      let (result, _) ← StatusServiceImpl.GetChatServer servers_ uid uuid
      return .GetChatServer uid result
  | Login uid token => do
      let rsp ← StatusServiceImpl.Login uid token
      return .Login uid token rsp

abbrev StatusPoolCall (κ : Type) :=
  Monitor.Call StatusOp (Option κ) (@RedisEffect.Reply κ) StatusReply

abbrev StatusPool (κ : Type) :=
  Monitor.System StatusOp (Option κ) (@RedisEffect.Reply κ) StatusReply

abbrev StatusPoolEvent (κ : Type) := Monitor.Event StatusOp (Option κ) (@RedisEffect.Reply κ)

namespace StatusPool

variable {κ : Type}

def new (contexts : List κ) : StatusPool κ := Monitor.start (contexts.map some)

def step : StatusPool κ → StatusPoolEvent κ → Option (StatusPool κ) :=
  Monitor.step StatusOp.program

end StatusPool

def StatusPoolCall.reply? {κ : Type} (call : StatusPoolCall κ) : Option StatusReply :=
  match call.status with
  | .ready (.ret reply) => some reply
  | _ => none

end QuickChat
