import QuickChat.Gate.GrpcClients
import QuickChat.Gate.HttpConnection
import QuickChat.Status.StatusCalls

/-!
# A login through the servers

A `/user_login` request passes three components: the handler of the gate server, the gRPC client that
it calls, and the status server, where its call is one of those in parallel. What its call comes to
there is given; the token of the reply is stored before the reply is sent. What the database says about
the user, which commands get through to Redis and whether the reply comes back may be anything.
-/

namespace QuickChat

open Text

namespace StatusGrpcClient

/-- `status.ok()` and the reply; an exception of the service is a status that is not ok. -/
def rpcAnswer (delivered : Bool) (result : Except StdException GetChatServerRsp) :
    Bool × GetChatServerRsp :=
  match result with
  | .ok reply => if delivered then (true, reply) else (false, ⟨0, [], [], []⟩)
  | .error _ => (false, ⟨0, [], [], []⟩)

end StatusGrpcClient

structure LoginWorld where
  CheckPwd : Bytes → Bytes → Option UserInfo
  /-- what its call has come to in the status server -/
  call : CallProgress
  /-- when the token is stored -/
  redis : Redis
  link : RedisLink
  /-- the RPC comes back with a status that is ok -/
  delivered : Bool

structure LoginState where
  redis : Redis
  /-- the documents written to the response -/
  response : List JsonValue

namespace LoginWorld

/-- The status server behind the stubs. A call that has read its reply goes on to store the token. -/
def serveGrpc (world : LoginWorld) :
    (effect : PoolEffect Unit (GrpcEffect Unit)) →
      StateT LoginState Option (effect.Answer (@GrpcEffect.Reply Unit))
  | .getConnection => pure ()
  | .returnConnection _ => pure ⟨⟩
  | .other (.GetChatServer _ request) => fun state =>
      match world.call with
      | .replied _ reply =>
          (RedisMgr.runThrough world.link (StatusServiceImpl.insertToken request.uid reply.token)
              state.redis).map fun stored =>
            (StatusGrpcClient.rpcAnswer world.delivered (.ok reply), { state with redis := stored.2 })
      | .thrown e => some (StatusGrpcClient.rpcAnswer world.delivered (.error e), state)
      | _ => none
  | .other (.GetVerifyCode _ _) => fun _ => none

/-- What `/user_login` calls; other handlers call more. -/
def serveHttp (world : LoginWorld) : (effect : HttpCall) → StateT LoginState Option effect.Answer
  | .version _ => pure ()
  | .keep_alive _ => pure ()
  | .result _ => pure ()
  | .set _ _ => pure ()
  | .write _ => pure ()
  | .WriteResponse => pure ()
  | .iterate _ => fun _ => none
  | .gate (.respond root) => fun state =>
      some ((), { state with response := state.response ++ [root] })
  | .gate _ => fun _ => none
  | .CheckPwd name pwd => pure (world.CheckPwd name pwd)
  | .GetVerifyCode _ => fun _ => none
  | .GetChatServer uid => (StatusGrpcClient.GetChatServer (Int32.ofInt uid)).interp world.serveGrpc

def start (world : LoginWorld) : LoginState := ⟨world.redis, []⟩

def run {α : Type} (world : LoginWorld) (program : HttpTry α) (state : LoginState) :
    Option (Except HttpError α × LoginState) :=
  (program.run.interp world.serveHttp).run state

def request (version : Nat) (body : Bytes) : HttpConnection :=
  HttpConnection.new ⟨.post, ascii "/user_login", version, body⟩

def login (world : LoginWorld) (cfg : ConfigMgr) (reader : JsonReader) (con : HttpConnection) :
    Option (Except HttpError Unit × LoginState) :=
  world.run (HttpConnection.HandleReq cfg reader con) world.start

end LoginWorld

end QuickChat
