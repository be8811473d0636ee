import QuickChat.Common.Mysql
import QuickChat.Gate.GateConnections
import QuickChat.Gate.Login
import QuickChat.Gate.VerifyRequest
import QuickChat.Lib.Expiring

/-!
# The gate and what it calls

The connections of the gate over one Redis, one MySQL and the table of the status server. The handlers
of connections on different contexts run at the same time, so between two calls of a handler there may
be any calls of the others, and time. A call is one step: it sends one statement that touches the user
table, or one command that touches a code or a token.

The gate and the verification server have the same prefix. Whoever else writes to Redis leaves the keys
under it alone, and those of the tokens. A caller that waits for a connection of a pool makes its call
later, or never.
-/

namespace QuickChat

open Text

structure Stores where
  redis : Redis
  mysql : Mysql
  /-- of the status server -/
  servers_ : ServerTable

/-- What a call meets: which commands of the gate and of the status server get through to Redis, what
becomes of the RPCs and of `setex`, and what the servers draw. -/
structure CallWorld where
  link : RedisLink
  /-- the RPC to the status server comes back -/
  delivered : Bool
  uuid : Uuid
  choices : Fin 6 → Fin 10
  setex : SetexOutcome
  rpc : RpcOutcome
  unread : GetVerifyRsp
  iterate : (get_params_ : List (Bytes × Bytes)) → (HttpCall.iterate get_params_).Answer

namespace CallWorld

variable (world : CallWorld) (reg_user : RegUserProcedure) (cfg : ConfigMgr)

/-- The status server behind the stubs. Its call is one step here, as far as Redis and the token go;
what other calls put in the table between its reads is told in `StatusCalls`. -/
def serveStatus : (effect : PoolEffect Unit (GrpcEffect Unit)) →
    StateT Stores Option (effect.Answer (@GrpcEffect.Reply Unit))
  | .getConnection => pure ()
  | .returnConnection _ => pure ⟨⟩
  | .other (.GetChatServer _ request) => fun stores =>
      (RedisMgr.runThrough world.link
          (StatusServiceImpl.GetChatServer stores.servers_ request.uid world.uuid) stores.redis).map
        fun result => (StatusGrpcClient.rpcAnswer world.delivered result.1.1,
          { stores with servers_ := result.1.2, redis := result.2 })
  | .other (.GetVerifyCode _ _) => fun _ => none

def verify (stores : Stores) : VerifyWorld :=
  ⟨cfg.value "Redis" "verify_prefix", stores.redis, world.choices, world.setex, world.rpc, world.unread⟩

def dao {α : Type} (program : MysqlProgram Unit α) : StateT Stores Option α := fun stores =>
  let result := Mysql.run reg_user program stores.mysql
  some (result.1, { stores with mysql := result.2 })

/-- What a call is answered, and what it leaves. -/
def serve : (effect : HttpCall) → StateT Stores Option effect.Answer
  | .gate (.RedisGet key) => fun stores =>
      (RedisMgr.runThrough world.link (RedisMgr.Get key []) stores.redis).map fun (answer, redis) =>
        (answer, { stores with redis := redis })
  | .gate (.RegUser name email pwd) => dao reg_user (MysqlDao.RegUser name email pwd)
  | .gate (.CheckEmail name email) => dao reg_user (MysqlDao.CheckEmail name email)
  | .gate (.UpdatePwd name pwd) => dao reg_user (MysqlDao.UpdatePwd name pwd)
  | .gate (.respond _) => pure ()
  | .CheckPwd name pwd => dao reg_user (MysqlDao.CheckPwd name pwd)
  | .GetVerifyCode email => fun stores =>
      let verify := world.verify cfg stores
      ((verify.serveHttp (.GetVerifyCode email)).run verify.start).map fun (reply, state) =>
        (reply, { stores with redis := state.store.redis })
  | .GetChatServer uid => (StatusGrpcClient.GetChatServer (Int32.ofInt uid)).interp world.serveStatus
  | .version _ => pure ()
  | .keep_alive _ => pure ()
  | .result _ => pure ()
  | .set _ _ => pure ()
  | .write _ => pure ()
  | .WriteResponse => pure ()
  | .iterate get_params_ => pure (world.iterate get_params_)

end CallWorld

def GateConnection.Event.proceeds : GateConnection.Event → Bool
  | .proceed _ => true
  | _ => false

structure Backend where
  gate : GateConnections
  stores : Stores

namespace Backend

inductive Event where
  /-- a second passes -/
  | elapse
  /-- anything but a call of `HandleReq` -/
  | connection (i : Nat) (event : GateConnection.Event)
  /-- `HandleReq` of the connection makes its next call -/
  | call (i : Nat) (world : CallWorld)
  /-- something else is written to Redis -/
  | write (key : Bytes) (entry : Option (RedisValue × Option Nat))

variable (reg_user : RegUserProcedure) (cfg : ConfigMgr) (reader : JsonReader)

def elapse (backend : Backend) (gate : GateConnections) : Backend :=
  { gate := gate
    stores := { backend.stores with
      redis := { backend.stores.redis with now := backend.stores.redis.now + 1 } } }

def answered (backend : Backend) (i : Nat) (con : GateConnection) (stores : Stores) : Backend :=
  { gate := { backend.gate with connections := backend.gate.connections.set i con }
    stores := stores }

def step (backend : Backend) : Event → Option Backend
  | .elapse => (backend.gate.step cfg reader .elapse).map fun gate => backend.elapse gate
  | .connection i event =>
      if event.proceeds then none
      else
        (backend.gate.step cfg reader (.connection i event)).map fun gate =>
          { backend with gate := gate }
  | .call i world =>
      if backend.gate.aborted then none
      else
        backend.gate.connections[i]?.bind fun con =>
          match con.stage with
          | .handling request (.call effect next) =>
              (world.serve reg_user cfg effect backend.stores).map fun (answer, stores) =>
                backend.answered i (con.perform request effect answer (next answer)) stores
          | _ => none
  | .write key entry =>
      if cfg.value "Redis" "verify_prefix" <+: key ∨ USERTOKENPREFIX <+: key then none
      else
        some { backend with
          stores := { backend.stores with redis := backend.stores.redis.put key entry } }

def listen (size : Nat) (stores : Stores) : Option Backend :=
  (GateConnections.listen size).map fun gate => ⟨gate, stores⟩

/-! ### The calls of a run -/

structure Call where
  i : Nat
  request : HttpRequest
  effect : HttpCall
  world : CallWorld

def callAt : Backend × Event → Option Call
  | (backend, .call i world) =>
      backend.gate.connections[i]?.bind fun con =>
        match con.stage with
        | .handling request (.call effect _) => some ⟨i, request, effect, world⟩
        | _ => none
  | _ => none

/-- `setex` has been executed for the call, and the code is the one that it stores. -/
def Call.storesCode (call : Call) : Option (Bytes × Bytes) :=
  match call.effect with
  | .GetVerifyCode email =>
      if call.world.setex ≠ .raised false ∧ call.world.rpc ≠ .failed false then
        some (email, VerifyService.joinDigits call.world.choices)
      else none
  | _ => none

def stored (entry : Backend × Event) : Option (Expiring.Event Bytes Bytes) :=
  match entry.2 with
  | .elapse => some (.elapse 1)
  | _ => ((callAt entry).bind Call.storesCode).map fun code => .put code.1 code.2

/-- Behind the steps, the code is the one most recently stored for the email, and has not expired. -/
def LiveCode (past : List (Backend × Event)) (email code : Bytes) : Prop :=
  Expiring.Live 300 (past.filterMap stored) email code

/-- The token that the call stores for a uid: one is issued, and the command that stores it executed. -/
def Call.issues (call : Call) (stores : Stores) : Option (Int32 × Bytes) :=
  match call.effect with
  | .GetChatServer uid =>
      match RedisMgr.runThrough call.world.link
          (StatusServiceImpl.GetChatServer stores.servers_ (Int32.ofInt uid) call.world.uuid)
          stores.redis with
      | some ((.ok reply, _), _) =>
          let command := [ascii "SET", StatusServiceImpl.token_key (Int32.ofInt uid), reply.token]
          if call.world.link.executes command then some (Int32.ofInt uid, reply.token) else none
      | _ => none
  | _ => none

def issued (entry : Backend × Event) : Option (Int32 × Bytes) :=
  (callAt entry).bind fun call => call.issues entry.1.stores

end Backend

end QuickChat
