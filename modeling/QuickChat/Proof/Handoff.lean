import QuickChat.Gate.Login
import QuickChat.Proof.Replies
import QuickChat.Proof.Selection

/-!
# What a login tells the client about its server

The status server's reply has a host and a port, and the handler copies the host. As long as no
selection for another call puts another host in the first entry before it has been read, this is the
host of the server that was selected, and then two selections can be told apart by the replies of the
gate server exactly if they have different hosts. The token arrives as it was issued; it is in the
store if the command that puts it there is executed, which nobody checks.
-/

namespace QuickChat

open Text

/-! ### The client -/

def StatusGrpcClient.clientReply (answer : Bool × GetChatServerRsp) : GetChatServerRsp :=
  if answer.1 then answer.2 else { answer.2 with error := ErrorCodes.RPCFailed.value }

theorem StatusGrpcClient.interp_GetChatServer {σ : Type}
    {serve : (effect : PoolEffect Unit (GrpcEffect Unit)) →
      StateT σ Option (effect.Answer (@GrpcEffect.Reply Unit))}
    (hget : serve .getConnection = pure ()) (hreturn : serve (.returnConnection ()) = pure ⟨⟩)
    (uid : Int32) (state : σ) :
    ((GetChatServer uid).interp serve).run state =
      ((serve (.other (.GetChatServer () ⟨uid⟩))).run state).map fun answer =>
        (clientReply answer.1, answer.2) := by
  change ((serve .getConnection).run state).bind _ = _
  rw [hget]
  change ((serve (.other (.GetChatServer () ⟨uid⟩))).run state).bind _ = _
  cases (serve (.other (.GetChatServer () ⟨uid⟩))).run state with
  | none => rfl
  | some answer =>
      obtain ⟨⟨ok, reply⟩, state⟩ := answer
      rw [Option.bind_some, Option.map_some]
      -- On either branch the stub is put back behind the reply.
      cases ok
      · change ((serve (.returnConnection ())).run state).bind _ = _
        rw [hreturn]
        rfl
      · change ((serve (.returnConnection ())).run state).bind _ = _
        rw [hreturn]
        rfl

namespace LoginWorld

variable {α β : Type} (world : LoginWorld) (state : LoginState)

/-! ### The handler -/

/-- **The rule of composition.** What raises an error ends the handler. -/
theorem run_bind (program : HttpTry α) (second : α → HttpTry β) :
    world.run (program >>= second) state =
      (world.run program state).bind fun
        | (.ok value, state) => world.run (second value) state
        | (.error e, state) => some (.error e, state) := by
  rw [run, Program.interp_raising_bind]
  change (world.run program state).bind _ = _
  cases world.run program state with
  | none => rfl
  | some result =>
      obtain ⟨outcome, state⟩ := result
      cases outcome <;> rfl

theorem run_raising {ε : Type} (toError : ε → HttpError) (result : Except ε α) :
    world.run (HttpConnection.raising toError result) state
      = some (result.mapError toError, state) := rfl

theorem run_respond (root : JsonValue) :
    world.run (HttpConnection.gate (LogicSystem.respond root)) state
      = some (.ok (), { state with response := state.response ++ [root] }) := rfl

theorem run_CheckPwd (name pwd : Bytes) :
    world.run (HttpConnection.call (.CheckPwd name pwd)) state
      = some (.ok (world.CheckPwd name pwd), state) := rfl

theorem run_GetChatServer_replied {server : ChatServer} {reply : GetChatServerRsp} (uid : Int)
    (hcall : world.call = .replied server reply) (htoken : (0 : UInt8) ∉ reply.token) :
    world.run (HttpConnection.call (.GetChatServer uid)) state =
      some (.ok (StatusGrpcClient.clientReply
          (StatusGrpcClient.rpcAnswer world.delivered (.ok reply))),
        ⟨StatusServiceImpl.storeToken world.link state.redis (Int32.ofInt uid) reply.token,
          state.response⟩) := by
  have hserve : (world.serveGrpc (.other (.GetChatServer () ⟨Int32.ofInt uid⟩))).run state =
      some (StatusGrpcClient.rpcAnswer world.delivered (.ok reply),
        ⟨StatusServiceImpl.storeToken world.link state.redis (Int32.ofInt uid) reply.token,
          state.response⟩) := by
    simp only [serveGrpc, hcall, StateT.run,
      StatusServiceImpl.runThrough_insertToken _ _ _ htoken, Option.map_some]
    rfl
  change (((StatusGrpcClient.GetChatServer (Int32.ofInt uid)).interp world.serveGrpc).run state).bind _
    = _
  rw [StatusGrpcClient.interp_GetChatServer rfl rfl, hserve]
  rfl

theorem run_GetChatServer_thrown {e : StdException} (uid : Int) (hcall : world.call = .thrown e) :
    world.run (HttpConnection.call (.GetChatServer uid)) state =
      some (.ok (StatusGrpcClient.clientReply
        (StatusGrpcClient.rpcAnswer world.delivered (.error e))), state) := by
  have hserve : (world.serveGrpc (.other (.GetChatServer () ⟨Int32.ofInt uid⟩))).run state
      = some (StatusGrpcClient.rpcAnswer world.delivered (.error e), state) := by
    simp only [serveGrpc, hcall, StateT.run]
    rfl
  change (((StatusGrpcClient.GetChatServer (Int32.ofInt uid)).interp world.serveGrpc).run state).bind _
    = _
  rw [StatusGrpcClient.interp_GetChatServer rfl rfl, hserve]
  rfl

theorem run_GetChatServer_none (uid : Int) (hreplied : ∀ server reply, world.call ≠ .replied server reply)
    (hthrown : ∀ e, world.call ≠ .thrown e) :
    world.run (HttpConnection.call (.GetChatServer uid)) state = none := by
  have hserve : (world.serveGrpc (.other (.GetChatServer () ⟨Int32.ofInt uid⟩))).run state = none := by
    cases hcall : world.call with
    | replied server reply => exact absurd hcall (hreplied server reply)
    | thrown e => exact absurd hcall (hthrown e)
    | _ => simp only [serveGrpc, hcall, StateT.run]
  change (((StatusGrpcClient.GetChatServer (Int32.ofInt uid)).interp world.serveGrpc).run state).bind _
    = _
  rw [StatusGrpcClient.interp_GetChatServer rfl rfl, hserve]
  rfl

/-- The request is dispatched to its handler, and what follows the handler writes no document. -/
theorem login_eq (cfg : ConfigMgr) (reader : JsonReader) (version : Nat) (body : Bytes) :
    world.login cfg reader (request version body) =
      world.run (LogicSystem.user_login reader (request version body)) world.start := by
  have hhandle : LogicSystem.handle (LogicSystem.post_handlers_ cfg reader) (ascii "/user_login")
      (request version body) = (do
        LogicSystem.user_login reader (request version body)
        return true) := rfl
  change (world.run (LogicSystem.handle (LogicSystem.post_handlers_ cfg reader) (ascii "/user_login")
      (request version body) >>= fun success =>
        HttpConnection.finish success "url not found\r\n") world.start) = _
  rw [hhandle, run_bind, run_bind]
  cases world.run (LogicSystem.user_login reader (request version body)) world.start with
  | none => rfl
  | some result =>
      obtain ⟨outcome, state⟩ := result
      cases outcome <;> rfl

theorem run_readBody (reader : JsonReader) (con : HttpConnection) :
    world.run (LogicSystem.readBody reader con) state
      = some (reader con.request_.body, state) := by
  cases hreader : reader con.request_.body with
  | error e => rw [LogicSystem.readBody, hreader]; rfl
  | ok parsed => rw [LogicSystem.readBody, hreader]; rfl

end LoginWorld

/-- The database gives the uid for the user and the password in the body. -/
def LogsIn (world : LoginWorld) (reader : JsonReader) (body : Bytes) (uid : Int) : Prop :=
  ∃ src_root name pwd userInfo, reader body = .ok (some src_root) ∧
    src_root.field "user" = .ok name ∧ src_root.field "passwd" = .ok pwd ∧
    world.CheckPwd name pwd = some userInfo ∧ userInfo.uid = uid

structure HandedOff (world : LoginWorld) (reader : JsonReader) (body : Bytes) (final : LoginState)
    (root : JsonValue) (server : ChatServer) (reply : GetChatServerRsp) (uid : Int) : Prop where
  user : LogsIn world reader body uid
  call : world.call = .replied server reply
  document : ∃ name, root = .object [(ascii "error", .int 0), (ascii "user", .string name),
    (ascii "uid", .int uid), (ascii "token", .string reply.token), (ascii "host", .string reply.host)]
  redis : final.redis =
    StatusServiceImpl.storeToken world.link world.redis (Int32.ofInt uid) reply.token

namespace LoginWorld

variable {world : LoginWorld} {reader : JsonReader} {version : Nat} {body : Bytes}
  {result : Except HttpError Unit} {final : LoginState} {root : JsonValue}

theorem not_mem_start (hroot : root ∈ world.start.response) : False := List.not_mem_nil hroot

theorem error_ne_zero {code : ErrorCodes} {state : LoginState} (hcode : code.value ≠ 0)
    (hstate : state.response = [LogicSystem.errorRoot code]) (hroot : root ∈ state.response) :
    root.error? ≠ some 0 := by
  rw [hstate, List.mem_singleton] at hroot
  rw [hroot]
  intro herror
  exact hcode (Option.some.inj herror)

theorem zero_not_mem_of_issued {server : ChatServer} {reply : GetChatServerRsp}
    (hissued : world.call.Issued) (hcall : world.call = .replied server reply) :
    (0 : UInt8) ∉ reply.token := by
  rw [hcall] at hissued
  obtain ⟨-, uuid, htoken⟩ := hissued
  exact htoken ▸ not_mem_generate_unique_string uuid

/-- With the error 0 in the document, the reply of the service has come back with it. -/
theorem document_of_replied {name : Bytes} {uid : Int} (hissued : world.call.Issued)
    (hrun : world.run (do
        let reply ← HttpConnection.call (.GetChatServer uid)
        if reply.error ≠ 0 then
          HttpConnection.gate (LogicSystem.respond (LogicSystem.errorRoot .RPCFailed))
        else
          HttpConnection.gate (LogicSystem.respond (.object [(ascii "error", .int 0),
            (ascii "user", .string name), (ascii "uid", .int uid),
            (ascii "token", .string reply.token), (ascii "host", .string reply.host)])))
        world.start = some (result, final))
    (hroot : root ∈ final.response) (herror : root.error? = some 0) :
    ∃ server reply, world.call = .replied server reply ∧
      root = .object [(ascii "error", .int 0), (ascii "user", .string name), (ascii "uid", .int uid),
        (ascii "token", .string reply.token), (ascii "host", .string reply.host)] ∧
      final.redis =
        StatusServiceImpl.storeToken world.link world.redis (Int32.ofInt uid) reply.token := by
  rw [run_bind] at hrun
  cases hcall : world.call with
  | replied server reply =>
      rw [run_GetChatServer_replied _ _ _ hcall (zero_not_mem_of_issued hissued hcall),
        Option.bind_some] at hrun
      dsimp only [StatusGrpcClient.rpcAnswer] at hrun
      by_cases hdelivered : world.delivered
      · rw [if_pos hdelivered] at hrun
        have hzero : ¬ (StatusGrpcClient.clientReply (true, reply)).error ≠ 0 := by
          rw [hcall] at hissued
          exact not_not_intro hissued.1
        rw [if_neg hzero] at hrun
        obtain ⟨-, rfl⟩ := Prod.mk.inj (Option.some.inj hrun)
        exact ⟨server, reply, rfl, List.mem_singleton.mp hroot, rfl⟩
      · rw [if_neg hdelivered] at hrun
        obtain ⟨-, rfl⟩ := Prod.mk.inj (Option.some.inj hrun)
        exact absurd herror (error_ne_zero (by decide) rfl hroot)
  | thrown e =>
      rw [run_GetChatServer_thrown _ _ _ hcall, Option.bind_some] at hrun
      obtain ⟨-, rfl⟩ := Prod.mk.inj (Option.some.inj hrun)
      exact absurd herror (error_ne_zero (by decide) rfl hroot)
  | _ =>
      rw [run_GetChatServer_none _ _ _ (by simp [hcall]) (by simp [hcall])] at hrun
      exact absurd hrun (by simp)

/-- The document takes host and token from the reply, and the uid from the database. -/
theorem handedOff_of_parsed {src_root : JsonValue} (hissued : world.call.Issued)
    (hreader : reader body = .ok (some src_root))
    (hrun : world.run (LogicSystem.user_login_parsed (some src_root)) world.start
      = some (result, final))
    (hroot : root ∈ final.response) (herror : root.error? = some 0) :
    ∃ server reply uid, HandedOff world reader body final root server reply uid := by
  rw [LogicSystem.user_login_parsed, run_bind, run_raising, Option.bind_some] at hrun
  cases hname : src_root.field "user" with
  | error e =>
      rw [hname] at hrun
      obtain ⟨-, rfl⟩ := Prod.mk.inj (Option.some.inj hrun)
      exact (not_mem_start hroot).elim
  | ok name =>
      rw [hname] at hrun
      change world.run (_ >>= _) world.start = _ at hrun
      rw [run_bind, run_raising, Option.bind_some] at hrun
      cases hpwd : src_root.field "passwd" with
      | error e =>
          rw [hpwd] at hrun
          obtain ⟨-, rfl⟩ := Prod.mk.inj (Option.some.inj hrun)
          exact (not_mem_start hroot).elim
      | ok pwd =>
          rw [hpwd] at hrun
          change world.run (_ >>= _) world.start = _ at hrun
          rw [run_bind, run_CheckPwd, Option.bind_some] at hrun
          dsimp only at hrun
          cases huser : world.CheckPwd name pwd with
          | none =>
              rw [huser] at hrun
              obtain ⟨-, rfl⟩ := Prod.mk.inj (Option.some.inj hrun)
              exact absurd herror (error_ne_zero (by decide) rfl hroot)
          | some userInfo =>
              rw [huser] at hrun
              obtain ⟨server, reply, hcall, hdocument, hredis⟩ :=
                document_of_replied hissued hrun hroot herror
              exact ⟨server, reply, userInfo.uid, ⟨src_root, name, pwd, userInfo, hreader, hname, hpwd,
                huser, rfl⟩, hcall, ⟨name, hdocument⟩, hredis⟩

theorem handedOff_of_login {cfg : ConfigMgr} (hissued : world.call.Issued)
    (hrun : world.login cfg reader (request version body) = some (result, final))
    (hroot : root ∈ final.response) (herror : root.error? = some 0) :
    ∃ server reply uid, HandedOff world reader body final root server reply uid := by
  rw [login_eq, LogicSystem.user_login, run_bind, run_readBody, Option.bind_some] at hrun
  have hbody : (request version body).request_.body = body := rfl
  rw [hbody] at hrun
  cases hreader : reader body with
  | error e =>
      rw [hreader] at hrun
      obtain ⟨-, rfl⟩ := Prod.mk.inj (Option.some.inj hrun)
      exact (not_mem_start hroot).elim
  | ok parsed =>
      rw [hreader] at hrun
      cases parsed with
      | none =>
          obtain ⟨-, rfl⟩ := Prod.mk.inj (Option.some.inj hrun)
          exact absurd herror (error_ne_zero (by decide) rfl hroot)
      | some src_root => exact handedOff_of_parsed hissued hreader hrun hroot herror

end LoginWorld

/-! ### What the reply tells -/

/-- A login answered with the error 0, whose call is one of a run of the status server. -/
structure AnsweredLogin (config : ServerTable) where
  world : LoginWorld
  cfg : ConfigMgr
  reader : JsonReader
  version : Nat
  body : Bytes
  result : Except HttpError Unit
  final : LoginState
  root : JsonValue
  /-- the steps of the status server's calls, and which of them is the login's -/
  events : List StatusStep
  i : Nat
  called : ∃ state, Machine.run StatusCalls.step (StatusCalls.start config) events = some state ∧
    state.calls[i]? = some world.call
  answered : world.login cfg reader (LoginWorld.request version body) = some (result, final)
  document : root ∈ final.response
  error : root.error? = some 0

def ChatServer.endpoint (server : ChatServer) : Bytes × Bytes := (server.host, server.port)

/-- The members of a reply that say where to connect. -/
def addressFields : JsonValue → List (Bytes × JsonValue)
  | .object members => members.filter fun field =>
      field.1 ∉ [ascii "error", ascii "user", ascii "uid", ascii "token"]
  | _ => []

namespace AnsweredLogin

variable {config : ServerTable} (first second login : AnsweredLogin config)

/-- Every step of the status server keeps the host for the login's call. -/
def HostKept : Prop :=
  Machine.EachStep StatusCalls.step (StatusCalls.start config) login.events
    (StatusCalls.KeepsHost login.i)

/-- If the servers selected for the two logins have different endpoints, the replies say so. -/
def ToldApart : Prop :=
  ∀ server ∈ first.world.call.server?, ∀ other ∈ second.world.call.server?,
    server.endpoint ≠ other.endpoint → addressFields first.root ≠ addressFields second.root

def TokenStored : Prop :=
  ∃ uid token, login.root.member "uid" = .ok (.int uid) ∧
    login.root.member "token" = .ok (.string token) ∧
    login.final.redis.text (StatusServiceImpl.token_key (Int32.ofInt uid)) = some token

/-- Redis executes the command that stores the token, or has that token already. -/
def SetExecuted : Prop :=
  ∀ uid, LogsIn login.world login.reader login.body uid →
    ∀ server reply, login.world.call = .replied server reply →
      login.world.link.executes
          [ascii "SET", StatusServiceImpl.token_key (Int32.ofInt uid), reply.token] ∨
        login.world.redis.text (StatusServiceImpl.token_key (Int32.ofInt uid)) = some reply.token

end AnsweredLogin

/-- No two configured servers share a host and differ in their ports. -/
def HostsTell (config : ServerTable) : Prop :=
  ∀ entry ∈ config, ∀ other ∈ config, entry.2.host = other.2.host → entry.2.port = other.2.port

theorem LogsIn.unique {world : LoginWorld} {reader : JsonReader} {body : Bytes} {uid uid' : Int}
    (huid : LogsIn world reader body uid) (huid' : LogsIn world reader body uid') : uid = uid' := by
  obtain ⟨src_root, name, pwd, userInfo, hreader, hname, hpwd, huser, rfl⟩ := huid
  obtain ⟨src_root', name', pwd', userInfo', hreader', hname', hpwd', huser', rfl⟩ := huid'
  obtain rfl := Option.some.inj (Except.ok.inj (hreader.symm.trans hreader'))
  obtain rfl := Except.ok.inj (hname.symm.trans hname')
  obtain rfl := Except.ok.inj (hpwd.symm.trans hpwd')
  obtain rfl := Option.some.inj (huser.symm.trans huser')
  rfl

namespace AnsweredLogin

variable {config : ServerTable} {cfg : ConfigMgr}

theorem issued (login : AnsweredLogin config) : login.world.call.Issued := by
  obtain ⟨state, hrun, hcall⟩ := login.called
  exact StatusCalls.issued_of_run hrun _ (List.mem_of_getElem? hcall)

theorem handedOff (login : AnsweredLogin config) : ∃ server reply uid,
    HandedOff login.world login.reader login.body login.final login.root server reply uid :=
  LoginWorld.handedOff_of_login login.issued login.answered login.document login.error

theorem known_server (login : AnsweredLogin config) {server : ChatServer}
    (hserver : login.world.call.server? = some server) : Known config server := by
  obtain ⟨state, hrun, hcall⟩ := login.called
  exact (StatusCalls.allKnown_of_run hrun).calls _ (List.mem_of_getElem? hcall) server hserver

/-- The reply that the handler copies has the host of the server that was selected. -/
theorem HostKept.host_eq {login : AnsweredLogin config} (hkept : login.HostKept) {server : ChatServer}
    {reply : GetChatServerRsp} (hcall : login.world.call = .replied server reply) :
    reply.host = server.host := by
  obtain ⟨state, hrun, hget⟩ := login.called
  have hright := (StatusCalls.hostKept_throughout_iff hrun).mpr hkept login.events List.prefix_rfl
    state hrun
  rw [hcall] at hget
  exact hright _ hget

theorem addressFields_eq {login : AnsweredLogin config} {server : ChatServer}
    {reply : GetChatServerRsp} (hcall : login.world.call = .replied server reply) :
    addressFields login.root = [(ascii "host", .string reply.host)] := by
  obtain ⟨server', reply', uid, hhanded⟩ := login.handedOff
  obtain ⟨-, rfl⟩ := CallProgress.replied.inj (hcall.symm.trans hhanded.call)
  obtain ⟨name, hroot⟩ := hhanded.document
  rw [hroot]
  rfl

/-- The token is new to Redis only by its `SET`. -/
theorem tokenStored_iff (login : AnsweredLogin config) : login.TokenStored ↔ login.SetExecuted := by
  obtain ⟨server, reply, uid, hlogin⟩ := login.handedOff
  obtain ⟨name, hroot⟩ := hlogin.document
  have huid : login.root.member "uid" = .ok (.int uid) := by rw [hroot]; rfl
  have htoken : login.root.member "token" = .ok (.string reply.token) := by rw [hroot]; rfl
  have hstored : login.TokenStored ↔
      login.final.redis.text (StatusServiceImpl.token_key (Int32.ofInt uid)) = some reply.token := by
    constructor
    · rintro ⟨uid', token, huid', htoken', htext⟩
      obtain rfl := JsonValue.int.inj (Except.ok.inj (huid.symm.trans huid'))
      obtain rfl := JsonValue.string.inj (Except.ok.inj (htoken.symm.trans htoken'))
      exact htext
    · intro htext
      exact ⟨uid, _, huid, htoken, htext⟩
  have hset : login.SetExecuted ↔
      login.world.link.executes
          [ascii "SET", StatusServiceImpl.token_key (Int32.ofInt uid), reply.token] ∨
        login.world.redis.text (StatusServiceImpl.token_key (Int32.ofInt uid)) = some reply.token := by
    constructor
    · intro hall
      exact hall uid hlogin.user server reply hlogin.call
    · intro hexecuted uid' huid' server' reply' hcall'
      obtain ⟨-, rfl⟩ := CallProgress.replied.inj (hlogin.call.symm.trans hcall')
      rwa [huid'.unique hlogin.user]
  rw [hstored, hset, hlogin.redis, StatusServiceImpl.storeToken]
  split
  · rename_i hexecutes
    refine iff_of_true ?_ (.inl hexecutes)
    exact Redis.text_put_string (StatusServiceImpl.not_mem_token_key _)
      (LoginWorld.zero_not_mem_of_issued login.issued hlogin.call)
  · rename_i hexecutes
    simp [hexecutes]

/-- Two logins with their hosts kept are told apart unless their servers differ in nothing but the
port. -/
theorem toldApart_iff {first second : AnsweredLogin config} {server other : ChatServer}
    (hfirst : first.HostKept) (hsecond : second.HostKept)
    (hserver : first.world.call.server? = some server)
    (hother : second.world.call.server? = some other) :
    first.ToldApart second ↔ (server.host = other.host → server.port = other.port) := by
  obtain ⟨server', reply, uid, hhanded⟩ := first.handedOff
  obtain ⟨other', reply', uid', hhanded'⟩ := second.handedOff
  have hserver' : server = server' :=
    Option.some.inj (hserver.symm.trans (congrArg CallProgress.server? hhanded.call))
  have hother' : other = other' :=
    Option.some.inj (hother.symm.trans (congrArg CallProgress.server? hhanded'.call))
  rw [ToldApart, hserver, hother]
  simp only [Option.mem_some_iff, forall_eq', addressFields_eq hhanded.call, addressFields_eq hhanded'.call]
  rw [hfirst.host_eq hhanded.call, hsecond.host_eq hhanded'.call, ← hserver', ← hother']
  constructor
  · intro htold hhost
    by_contra hport
    refine htold (fun hendpoint => hport (Prod.mk.inj hendpoint).2) ?_
    rw [hhost]
  · intro hports hendpoint haddress
    have hhost : server.host = other.host := by simpa using haddress
    exact hendpoint (Prod.ext hhost (hports hhost))

end AnsweredLogin

/-! ### A login for each configured server -/

def onlyCount (name : Bytes) : Redis :=
  Redis.init.put LOGIN_COUNT
    (some (.hash fun field => if field = name then some (ascii "0") else none, none))

def onlyValue (least name : Bytes) : Int := if name = least then 0 else intMax

def alone (name : Bytes) : List StatusStep :=
  [.call, .select 0 (onlyCount name), .readHost 0, .readPort 0 StatusCalls.zeroUuid]

/-- With these counts, the server that has one is selected, wherever it stands in the table. -/
theorem selectWith_onlyCount {config : ServerTable} (hconfig : StatusServiceImpl.Configured config)
    {entry : Bytes × ChatServer} (hentry : entry ∈ config) :
    ∃ server servers_, StatusServiceImpl.selectWith
        ((onlyCount entry.2.name).hashText LOGIN_COUNT) config = some (.ok server, servers_) ∧
      server.endpoint = entry.2.endpoint := by
  have hcounts (other : Bytes × ChatServer) : StatusServiceImpl.loginCount
      ((onlyCount entry.2.name).hashText LOGIN_COUNT other.2.name)
        = .ok (onlyValue entry.2.name other.2.name) := by
    have htext : (onlyCount entry.2.name).hashText LOGIN_COUNT other.2.name
        = if other.2.name = entry.2.name then ascii "0" else [] := by
      rw [Redis.hashText, onlyCount, Redis.lookup_put_self]
      dsimp only
      split <;> rfl
    rw [htext, onlyValue]
    split <;> rfl
  obtain ⟨server, servers_, hselect, least, hleast, -, hhost, hport, hle⟩ :=
    StatusServiceImpl.selectWith_least hconfig (List.ne_nil_of_mem hentry) fun other _ => hcounts other
  have hname : least.2.name = entry.2.name := by
    by_contra hne
    have hzero := hle entry hentry
    rw [onlyValue, onlyValue, if_neg hne, if_pos rfl] at hzero
    exact absurd hzero (by decide)
  have hsame : least = entry := by
    have hnodup := hconfig.nodup
    refine List.inj_on_of_nodup_map hnodup hleast hentry ?_
    rw [← hconfig.name_eq least hleast, ← hconfig.name_eq entry hentry, hname]
  refine ⟨server, servers_, hselect, ?_⟩
  rw [ChatServer.endpoint, ChatServer.endpoint, hhost, hport, hsame]

/-- The call selects the server and replies. -/
theorem run_alone {config : ServerTable} (hconfig : StatusServiceImpl.Configured config)
    {entry : Bytes × ChatServer} (hentry : entry ∈ config) :
    ∃ state server reply, Machine.run StatusCalls.step (StatusCalls.start config)
        (alone entry.2.name) = some state ∧
      state.calls[0]? = some (.replied server reply) ∧ server.endpoint = entry.2.endpoint ∧
      Machine.EachStep StatusCalls.step (StatusCalls.start config) (alone entry.2.name)
        (StatusCalls.KeepsHost 0) := by
  obtain ⟨server, servers_, hselect, hendpoint⟩ := selectWith_onlyCount hconfig hentry
  obtain ⟨first, minServer, hselection⟩ := StatusServiceImpl.selection_of_selectWith hselect
  have hfirst : StatusCalls.minServer servers_ = some server :=
    hselection.selected server rfl ▸ hselection.after
  have hcall : StatusCalls.step (StatusCalls.start config) .call = some ⟨config, [.entered]⟩ := rfl
  have hselected : StatusCalls.step ⟨config, [.entered]⟩ (.select 0 (onlyCount entry.2.name))
      = some ⟨servers_, [.selected server]⟩ := by
    simp only [StatusCalls.step, List.getElem?_cons_zero, StatusServiceImpl.run_getChatServer, hselect]
    rfl
  have hhost : StatusCalls.step ⟨servers_, [.selected server]⟩ (.readHost 0)
      = some ⟨servers_, [.hostRead server server.host]⟩ := by
    simp only [StatusCalls.step, List.getElem?_cons_zero, hfirst]
    rfl
  obtain ⟨reply, hport⟩ : ∃ reply, StatusCalls.step ⟨servers_, [.hostRead server server.host]⟩
      (.readPort 0 StatusCalls.zeroUuid) = some ⟨servers_, [.replied server reply]⟩ := by
    simp only [StatusCalls.step, List.getElem?_cons_zero, hfirst]
    exact ⟨_, rfl⟩
  have hrun : Machine.run StatusCalls.step (StatusCalls.start config) (alone entry.2.name)
      = some ⟨servers_, [.replied server reply]⟩ := by
    rw [alone, Machine.run_cons, hcall, Option.bind_some, Machine.run_cons, hselected,
      Option.bind_some, Machine.run_cons, hhost, Option.bind_some, Machine.run_cons, hport,
      Option.bind_some, Machine.run_nil]
  refine ⟨_, server, reply, hrun, rfl, hendpoint, ?_⟩
  -- The call has not selected yet when its own selection is made.
  refine Machine.eachStep_cons.mpr ⟨trivial, fun state hstate => ?_⟩
  obtain rfl := Option.some.inj (hcall.symm.trans hstate)
  refine Machine.eachStep_cons.mpr ⟨?_, fun state hstate => ?_⟩
  · intro other hother
    exact absurd (Option.some.inj hother) (by simp)
  · exact Machine.eachStep_cons.mpr ⟨trivial, fun state hstate =>
      Machine.eachStep_cons.mpr ⟨trivial, fun state hstate => Machine.eachStep_nil⟩⟩

namespace AnsweredLogin

variable {config : ServerTable} {cfg : ConfigMgr}

def answering (call : CallProgress) : LoginWorld where
  CheckPwd _ _ := some ⟨[], [], 1, []⟩
  call := call
  redis := Redis.init
  link := RedisMgr.sound
  delivered := true

/-- Every reply of the status server can be one to a login. -/
theorem exists_answered {events : List StatusStep} {state : StatusCalls} {i : Nat} {server : ChatServer}
    {reply : GetChatServerRsp}
    (hrun : Machine.run StatusCalls.step (StatusCalls.start config) events = some state)
    (hcall : state.calls[i]? = some (.replied server reply)) :
    ∃ login : AnsweredLogin config, login.events = events ∧ login.i = i ∧
      login.world.call = .replied server reply := by
  have hissued := StatusCalls.issued_of_run hrun _ (List.mem_of_getElem? hcall)
  obtain ⟨herror, uuid, htoken⟩ := id hissued
  have hlogin : (answering (.replied server reply)).login ⟨[]⟩ (fun _ => .ok (some (.object [])))
      (LoginWorld.request 11 []) = some (.ok (),
        ⟨StatusServiceImpl.storeToken RedisMgr.sound Redis.init (Int32.ofInt 1) reply.token,
        [.object [(ascii "error", .int 0), (ascii "user", .string []), (ascii "uid", .int 1),
          (ascii "token", .string reply.token), (ascii "host", .string reply.host)]]⟩) := by
    rw [LoginWorld.login_eq, LogicSystem.user_login, LoginWorld.run_bind, LoginWorld.run_readBody,
      Option.bind_some]
    change LoginWorld.run _ (LogicSystem.user_login_parsed (some (.object []))) _ = _
    rw [LogicSystem.user_login_parsed, LoginWorld.run_bind, LoginWorld.run_raising, Option.bind_some]
    change LoginWorld.run _ (_ >>= _) _ = _
    rw [LoginWorld.run_bind, LoginWorld.run_raising, Option.bind_some]
    change LoginWorld.run _ (_ >>= _) _ = _
    rw [LoginWorld.run_bind, LoginWorld.run_CheckPwd, Option.bind_some]
    change LoginWorld.run _ (_ >>= _) _ = _
    rw [LoginWorld.run_bind, LoginWorld.run_GetChatServer_replied _ _ _ rfl
      (htoken ▸ not_mem_generate_unique_string uuid), Option.bind_some]
    have hzero : ¬ (StatusGrpcClient.clientReply (StatusGrpcClient.rpcAnswer
        (answering (.replied server reply)).delivered (.ok reply))).error ≠ 0 := not_not_intro herror
    dsimp only
    rw [if_neg hzero]
    rfl
  exact ⟨⟨answering (.replied server reply), ⟨[]⟩, _, 11, [], .ok (), _, _, events, i,
    ⟨state, hrun, hcall⟩, hlogin, List.mem_singleton_self _, rfl⟩, rfl, rfl, rfl⟩

/-- Every configured server is selected for some login. -/
theorem exists_selecting (hconfig : StatusServiceImpl.Configured config) {entry : Bytes × ChatServer}
    (hentry : entry ∈ config) :
    ∃ (login : AnsweredLogin config) (server : ChatServer), login.HostKept ∧
      login.world.call.server? = some server ∧ server.endpoint = entry.2.endpoint := by
  obtain ⟨state, server, reply, hrun, hcall, hendpoint, hkept⟩ := run_alone hconfig hentry
  obtain ⟨login, hevents, hi, hreplied⟩ := exists_answered hrun hcall
  refine ⟨login, server, ?_, congrArg CallProgress.server? hreplied, hendpoint⟩
  rw [HostKept, hevents, hi]
  exact hkept

/-- Two configured servers that share a host are selected for two logins with the same reply. -/
theorem not_toldApart (hconfig : StatusServiceImpl.Configured config)
    {entry other : Bytes × ChatServer} (hentry : entry ∈ config) (hother : other ∈ config)
    (hhost : entry.2.host = other.2.host) (hport : entry.2.port ≠ other.2.port) :
    ∃ first second : AnsweredLogin config, first.HostKept ∧ second.HostKept ∧
      ¬ first.ToldApart second := by
  obtain ⟨first, server, hfirst, hserver, hendpoint⟩ := exists_selecting hconfig hentry
  obtain ⟨second, server', hsecond, hserver', hendpoint'⟩ := exists_selecting hconfig hother
  refine ⟨first, second, hfirst, hsecond, ?_⟩
  rw [ChatServer.endpoint, ChatServer.endpoint, Prod.mk.injEq] at hendpoint hendpoint'
  rw [toldApart_iff hfirst hsecond hserver hserver', hendpoint.1, hendpoint.2, hendpoint'.1,
    hendpoint'.2]
  exact fun htold => hport (htold hhost)

/-- **When the hand-off works.** Whatever the calls of the status server do before, in between and
after, as long as their hosts are kept: the replies to any two logins tell their servers apart exactly
if the configuration has no two servers with one host and different ports. The host of a call is its
server's in every state of the run exactly if every step keeps it. The token of a reply is stored
exactly if Redis has executed its command. -/
theorem handoff_iff (hconfig : config.Perm (StatusServiceImpl.new cfg)) :
    ((∀ first second : AnsweredLogin config, first.HostKept → second.HostKept →
        first.ToldApart second) ↔ HostsTell config) ∧
      (∀ login : AnsweredLogin config,
        Machine.Throughout StatusCalls.step (StatusCalls.start config) login.events
            (StatusCalls.HostKept login.i) ↔ login.HostKept) ∧
      ∀ login : AnsweredLogin config, login.TokenStored ↔ login.SetExecuted := by
  refine ⟨⟨fun htold => ?_, fun hhosts first second hfirst hsecond => ?_⟩, fun login => ?_,
    tokenStored_iff⟩
  · intro entry hentry other hother hhost
    by_contra hport
    obtain ⟨first, second, hfirst, hsecond, hnot⟩ :=
      not_toldApart (StatusServiceImpl.configured_new hconfig) hentry hother hhost hport
    exact hnot (htold first second hfirst hsecond)
  · obtain ⟨server, reply, uid, hhanded⟩ := first.handedOff
    obtain ⟨other, reply', uid', hhanded'⟩ := second.handedOff
    have hserver := congrArg CallProgress.server? hhanded.call
    have hother := congrArg CallProgress.server? hhanded'.call
    obtain ⟨entry, hentry, -, hhost, hport⟩ := first.known_server hserver
    obtain ⟨entry', hentry', -, hhost', hport'⟩ := second.known_server hother
    rw [toldApart_iff hfirst hsecond hserver hother, hhost, hhost', hport, hport']
    exact hhosts entry hentry entry' hentry'
  · obtain ⟨state, hrun, -⟩ := login.called
    exact StatusCalls.hostKept_throughout_iff hrun

theorem handoff_two_hosts :
    (∀ first second : AnsweredLogin (StatusServiceImpl.new StatusServer.twoServers),
        first.HostKept → second.HostKept → first.ToldApart second) ∧
      ∀ login : AnsweredLogin (StatusServiceImpl.new StatusServer.twoServers),
        login.TokenStored ↔ login.SetExecuted := by
  obtain ⟨htold, -, htoken⟩ :=
    handoff_iff (List.Perm.refl (StatusServiceImpl.new StatusServer.twoServers))
  refine ⟨htold.mpr ?_, htoken⟩
  unfold HostsTell
  decide

def oneHost : ConfigMgr := ⟨[
  (ascii "chatservers", [(ascii "Name", ascii "ChatServer1,ChatServer2")]),
  (ascii "ChatServer1", [(ascii "Name", ascii "ChatServer1"), (ascii "Host", ascii "127.0.0.1"),
    (ascii "Port", ascii "8090")]),
  (ascii "ChatServer2", [(ascii "Name", ascii "ChatServer2"), (ascii "Host", ascii "127.0.0.1"),
    (ascii "Port", ascii "8091")])]⟩

def firstServer : Bytes × ChatServer :=
  (ascii "ChatServer1", ⟨ascii "127.0.0.1", ascii "8090", ascii "ChatServer1", 0⟩)

def secondServer : Bytes × ChatServer :=
  (ascii "ChatServer2", ⟨ascii "127.0.0.1", ascii "8091", ascii "ChatServer2", 0⟩)

/-- A call selects A, and before it reads the host, another one selects B. -/
def overtaking : List StatusStep :=
  [.call, .call, .select 0 (StatusCalls.countsOf (ascii "1") (ascii "5")),
    .select 1 (StatusCalls.countsOf (ascii "5") (ascii "1")), .readHost 0,
    .readPort 0 StatusCalls.zeroUuid, .readHost 1, .readPort 1 StatusCalls.zeroUuid]

/-- The two chat servers of the configuration file, with their names; and two servers on two hosts,
one of which is overwritten before its host is read. -/
theorem handoff_one_host :
    (∃ first second : AnsweredLogin (StatusServiceImpl.new oneHost), first.HostKept ∧
        second.HostKept ∧ ¬ first.ToldApart second) ∧
      ∃ first second : AnsweredLogin (StatusServiceImpl.new StatusServer.twoServers),
        ¬ first.ToldApart second := by
  constructor
  · have hservers : StatusServiceImpl.new oneHost = [firstServer, secondServer] := by decide
    have hfirst : firstServer ∈ StatusServiceImpl.new oneHost := by simp [hservers]
    have hsecond : secondServer ∈ StatusServiceImpl.new oneHost := by simp [hservers]
    have hport : firstServer.2.port ≠ secondServer.2.port := by decide
    exact not_toldApart (StatusServiceImpl.configured_new (List.Perm.refl _)) hfirst hsecond rfl hport
  · obtain ⟨state, server, other, reply, reply', hrun, hfirst, hsecond, hendpoint, hhost⟩ :
        ∃ state server other reply reply', Machine.run StatusCalls.step
            (StatusCalls.start (StatusServiceImpl.new StatusServer.twoServers)) overtaking = some state ∧
          state.calls[0]? = some (.replied server reply) ∧
          state.calls[1]? = some (.replied other reply') ∧
          server.endpoint ≠ other.endpoint ∧ reply.host = reply'.host :=
      ⟨_, _, _, _, _, rfl, rfl, rfl, by decide, rfl⟩
    obtain ⟨first, -, -, hcall⟩ := exists_answered hrun hfirst
    obtain ⟨second, -, -, hcall'⟩ := exists_answered hrun hsecond
    refine ⟨first, second, fun htold => ?_⟩
    refine htold server (congrArg CallProgress.server? hcall) other
      (congrArg CallProgress.server? hcall') hendpoint ?_
    rw [addressFields_eq hcall, addressFields_eq hcall', hhost]

end AnsweredLogin

end QuickChat
