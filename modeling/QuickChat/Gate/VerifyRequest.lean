import QuickChat.Gate.GrpcClients
import QuickChat.Gate.HttpConnection

/-!
# A request for a verification code through the servers

A `/get_verifycode` request passes the handler of the gate server, the gRPC client that it calls and
the verification server with its Redis. `setex` may raise, before or after Redis has executed it; the
service then sets a status code on its context and returns a response all the same. Whether the RPC
gets to the service, and whether its answer gets back, may be anything.
-/

namespace QuickChat

open Text

/-! ### The service -/

/-- The codes of gRPC, as far as they are told apart: `INTERNAL` is the one that the service sets. -/
inductive StatusCode where
  | OK
  | INTERNAL
  | other
  deriving DecidableEq, Repr

def StatusCode.ok (code : StatusCode) : Bool := code = OK

/-- What becomes of `setex`: it returns what Redis answers, or raises, the command executed or not. -/
inductive SetexOutcome where
  | answered
  | raised (executed : Bool)
  deriving DecidableEq, Repr

/-- Redis, with the commands that it has executed for the request. -/
structure VerifyStore where
  redis : Redis
  executed : List (List Bytes)

namespace VerifyStore

def execute (store : VerifyStore) (command : List Bytes) : redisReply × VerifyStore :=
  let result := store.redis.exec command
  (result.1, ⟨result.2, if result.1.type = .ERROR then store.executed else store.executed ++ [command]⟩)

def setex (store : VerifyStore) (outcome : SetexOutcome) (key seconds value : Bytes) :
    Bool × VerifyStore :=
  let command := [ascii "SETEX", key, seconds, value]
  match outcome with
  | .answered => ((store.execute command).1.type = .ERROR, (store.execute command).2)
  | .raised true => (true, (store.execute command).2)
  | .raised false => (true, store)

end VerifyStore

/-- The response of `GetVerifyCode`, and the code set on its context. -/
def VerifyService.answer (VERIFY_PREFIX email : Bytes) (choices : Fin 6 → Fin 10)
    (outcome : SetexOutcome) (store : VerifyStore) : (StatusCode × GetVerifyRsp) × VerifyStore :=
  let code := joinDigits choices
  let result := store.setex outcome (VERIFY_PREFIX ++ email) (ascii "300") code
  if result.1 then ((.INTERNAL, ⟨0, email, []⟩), result.2) else ((.OK, ⟨0, email, code⟩), result.2)

/-! ### The request -/

/-- What becomes of an RPC: the service's status and response come back, or the client gets a status
that is not ok, the service reached or not. -/
inductive RpcOutcome where
  | completed
  | failed (reached : Bool)
  deriving DecidableEq, Repr

structure VerifyWorld where
  VERIFY_PREFIX : Bytes
  redis : Redis
  choices : Fin 6 → Fin 10
  setex : SetexOutcome
  rpc : RpcOutcome
  /-- what `reply` holds when the status is not ok -/
  unread : GetVerifyRsp

structure VerifyState where
  store : VerifyStore
  /-- the documents written to the response -/
  response : List JsonValue

namespace VerifyWorld

def serveVerify (world : VerifyWorld) (email : Bytes) (store : VerifyStore) :
    (Bool × GetVerifyRsp) × VerifyStore :=
  let result := VerifyService.answer world.VERIFY_PREFIX email world.choices world.setex store
  match world.rpc with
  | .completed => ((result.1.1.ok, if result.1.1.ok then result.1.2 else world.unread), result.2)
  | .failed reached => ((false, world.unread), if reached then result.2 else store)

def serveGrpc (world : VerifyWorld) :
    (effect : PoolEffect Unit (GrpcEffect Unit)) →
      StateT VerifyState Option (effect.Answer (@GrpcEffect.Reply Unit))
  | .getConnection => pure ()
  | .returnConnection _ => pure ⟨⟩
  | .other (.GetVerifyCode _ request) => fun state =>
      let result := world.serveVerify request.email state.store
      some (result.1, { state with store := result.2 })
  | .other (.GetChatServer _ _) => fun _ => none

/-- What `/get_verifycode` calls; other handlers call more. -/
def serveHttp (world : VerifyWorld) : (effect : HttpCall) → StateT VerifyState Option effect.Answer
  | .version _ => pure ()
  | .keep_alive _ => pure ()
  | .result _ => pure ()
  | .set _ _ => pure ()
  | .write _ => pure ()
  | .WriteResponse => pure ()
  | .iterate _ => fun _ => none
  | .gate (.respond root) => fun state =>
      some ((), { state with response := state.response ++ [root] })
  | .gate _ => fun _ => none
  | .CheckPwd _ _ => fun _ => none
  | .GetVerifyCode email => (VerifyGrpcClient.GetVerifyCode email).interp world.serveGrpc
  | .GetChatServer _ => fun _ => none

def start (world : VerifyWorld) : VerifyState := ⟨⟨world.redis, []⟩, []⟩

def request (version : Nat) (body : Bytes) : HttpConnection :=
  HttpConnection.new ⟨.post, ascii "/get_verifycode", version, body⟩

def getVerifyCode (world : VerifyWorld) (cfg : ConfigMgr) (reader : JsonReader)
    (con : HttpConnection) : Option (Except HttpError Unit × VerifyState) :=
  ((HttpConnection.HandleReq cfg reader con).run.interp world.serveHttp).run world.start

end VerifyWorld

end QuickChat
