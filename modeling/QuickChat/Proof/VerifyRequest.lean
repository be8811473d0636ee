import QuickChat.Gate.VerifyRequest
import QuickChat.Proof.VerifyCode

/-!
# What the reply to `/get_verifycode` says about the store

The service's response has the error 0 also when nothing was stored; what tells is the status of the
RPC, and the client puts an error of its own over every response that came with one that is not ok.
The handler copies that error into its document.
-/

namespace QuickChat

open Text

/-! ### The service -/

namespace VerifyService

variable {VERIFY_PREFIX email : Bytes} {choices : Fin 6 → Fin 10} {outcome : SetexOutcome}
  {store : VerifyStore}

/-- If `setex` is answered, the service does what the model without failures does. -/
theorem answer_answered :
    (answer VERIFY_PREFIX email choices .answered store).1.2
        = (GetVerifyCode VERIFY_PREFIX email choices store.redis).1 ∧
      (answer VERIFY_PREFIX email choices .answered store).2.redis
        = (GetVerifyCode VERIFY_PREFIX email choices store.redis).2 :=
  ⟨rfl, rfl⟩

def setexCommand (VERIFY_PREFIX email : Bytes) (choices : Fin 6 → Fin 10) : List Bytes :=
  [ascii "SETEX", VERIFY_PREFIX ++ email, ascii "300", joinDigits choices]

/-- A status that is ok means that `setex` came back. -/
theorem answer_of_ok (hok : (answer VERIFY_PREFIX email choices outcome store).1.1.ok = true) :
    (answer VERIFY_PREFIX email choices outcome store).1.2 = ⟨0, email, joinDigits choices⟩ ∧
      (answer VERIFY_PREFIX email choices outcome store).2.executed
        = store.executed ++ [setexCommand VERIFY_PREFIX email choices] ∧
      (answer VERIFY_PREFIX email choices outcome store).2.redis
        = store.redis.put (VERIFY_PREFIX ++ email)
            (some (.string (joinDigits choices), some (store.redis.now + 300))) := by
  cases outcome with
  | answered => exact ⟨rfl, rfl, rfl⟩
  | raised executed =>
      cases executed with
      | false => exact absurd hok (by simp [answer, VerifyStore.setex, StatusCode.ok])
      | true => exact absurd hok (by simp [answer, VerifyStore.setex, StatusCode.ok])

end VerifyService

/-! ### The client -/

/-- The client puts its error over a response whose status is not ok, and returns the stub. -/
theorem VerifyGrpcClient.GetVerifyCode_eq_call (email : Bytes) :
    (VerifyGrpcClient.GetVerifyCode email : GrpcProgram Unit GetVerifyRsp) =
      .call .getConnection fun stub =>
        .call (.other (.GetVerifyCode stub ⟨email⟩)) fun (answer : Bool × GetVerifyRsp) =>
          .call (.returnConnection stub) fun _ =>
            .ret (if answer.1 then answer.2
              else { answer.2 with error := ErrorCodes.RPCFailed.value }) := by
  apply congrArg (Program.call _)
  funext stub
  apply congrArg (Program.call _)
  funext answer
  obtain ⟨ok, reply⟩ := answer
  cases ok with
  | true => rfl
  | false => rfl

namespace VerifyWorld

variable (world : VerifyWorld)

/-- The code drawn for the request is stored under the prefix and the email. -/
structure CodeStored (email : Bytes) (final : VerifyState) : Prop where
  executed : VerifyService.setexCommand world.VERIFY_PREFIX email world.choices ∈ final.store.executed
  entry : final.store.redis.entries (world.VERIFY_PREFIX ++ email)
    = some (.string (VerifyService.joinDigits world.choices), some (world.redis.now + 300))

def clientReply (email : Bytes) : GetVerifyRsp × VerifyStore :=
  let result := world.serveVerify email ⟨world.redis, []⟩
  (if result.1.1 then result.1.2 else { result.1.2 with error := ErrorCodes.RPCFailed.value }, result.2)

theorem run_GetVerifyCode (email : Bytes) :
    ((VerifyGrpcClient.GetVerifyCode email).interp world.serveGrpc).run world.start
      = some ((world.clientReply email).1, ⟨(world.clientReply email).2, []⟩) := by
  rw [VerifyGrpcClient.GetVerifyCode_eq_call]
  rfl

/-- The client has the error 0 only from the service itself. -/
theorem codeStored_of_clientReply {email : Bytes} (herror : (world.clientReply email).1.error = 0)
    (response : List JsonValue) :
    world.CodeStored email ⟨(world.clientReply email).2, response⟩ := by
  have hfailed : ErrorCodes.RPCFailed.value ≠ 0 := by decide
  unfold clientReply serveVerify at herror ⊢
  cases hrpc : world.rpc with
  | failed reached =>
      rw [hrpc] at herror
      exact absurd herror hfailed
  | completed =>
      rw [hrpc] at herror
      dsimp only at herror ⊢
      by_cases hok : (VerifyService.answer world.VERIFY_PREFIX email world.choices world.setex
          ⟨world.redis, []⟩).1.1.ok = true
      · obtain ⟨-, hexecuted, hredis⟩ := VerifyService.answer_of_ok hok
        constructor
        · rw [hexecuted]
          exact List.mem_singleton_self _
        · rw [hredis]
          exact Function.update_self _ _ _
      · rw [if_neg hok] at herror
        exact absurd herror hfailed

/-! ### The handler -/

/-- The request is dispatched to its handler, and what follows the handler writes no document. -/
theorem getVerifyCode_eq (cfg : ConfigMgr) (reader : JsonReader) (version : Nat) (body : Bytes) :
    world.getVerifyCode cfg reader (request version body) =
      ((LogicSystem.get_verifycode reader (request version body)).run.interp world.serveHttp).run
        world.start := by
  have hhandle : LogicSystem.handle (LogicSystem.post_handlers_ cfg reader) (ascii "/get_verifycode")
      (request version body) = (do
        LogicSystem.get_verifycode reader (request version body)
        return true) := rfl
  change (((LogicSystem.handle (LogicSystem.post_handlers_ cfg reader) (ascii "/get_verifycode")
      (request version body) >>= fun success =>
        HttpConnection.finish success "url not found\r\n").run.interp world.serveHttp).run
      world.start) = _
  rw [hhandle, Program.interp_raising_bind, Program.interp_raising_bind]
  cases ((LogicSystem.get_verifycode reader (request version body)).run.interp world.serveHttp).run
      world.start with
  | none => rfl
  | some result =>
      obtain ⟨outcome, state⟩ := result
      cases outcome with
      | ok value => rfl
      | error e => rfl

theorem run_readBody (reader : JsonReader) (con : HttpConnection) :
    ((LogicSystem.readBody reader con).run.interp world.serveHttp).run world.start
      = some (reader con.request_.body, world.start) := by
  cases hreader : reader con.request_.body with
  | error e => rw [LogicSystem.readBody, hreader]; rfl
  | ok parsed => rw [LogicSystem.readBody, hreader]; rfl

theorem member_of_field {value : JsonValue} {key : String} {text : Bytes}
    (hfield : value.field key = .ok text) : ∃ member, value.member key = .ok member := by
  cases hmember : value.member key with
  | error e =>
      rw [JsonValue.field, hmember] at hfield
      exact absurd hfield (by simp [bind, Except.bind])
  | ok member => exact ⟨member, rfl⟩

theorem run_call_GetVerifyCode (email : Bytes) :
    ((HttpConnection.call (.GetVerifyCode email)).run.interp world.serveHttp).run world.start
      = some (.ok (world.clientReply email).1, ⟨(world.clientReply email).2, []⟩) := by
  change (((VerifyGrpcClient.GetVerifyCode email).interp world.serveGrpc).run world.start).bind _ = _
  rw [run_GetVerifyCode]
  rfl

theorem run_get_verifycode_parsed {src_root member : JsonValue} {email : Bytes}
    (hemail : src_root.field "email" = .ok email) (hmember : src_root.member "email" = .ok member) :
    ((LogicSystem.get_verifycode_parsed (some src_root)).run.interp world.serveHttp).run world.start
      = some (.ok (), ⟨(world.clientReply email).2,
          [.object [(ascii "error", .int (world.clientReply email).1.error),
            (ascii "email", member)]]⟩) := by
  rw [LogicSystem.get_verifycode_parsed, hemail, hmember]
  change (((HttpConnection.call (.GetVerifyCode email) >>= fun rsp => _ : HttpTry Unit)).run.interp
    world.serveHttp).run world.start = _
  rw [Program.interp_raising_bind, run_call_GetVerifyCode]
  rfl

/-- **No success without a code.** Whatever becomes of `setex` and of the RPC, the handler writes one
document; its error is 0 only if the code was stored under the prefix and the email of the request, and
it is another one in every case in which none was. -/
theorem error_of_get_verifycode (cfg : ConfigMgr) (reader : JsonReader) (version : Nat)
    {body email : Bytes} {src_root : JsonValue} (hreader : reader body = .ok (some src_root))
    (hemail : src_root.field "email" = .ok email) :
    ∃ final root error, world.getVerifyCode cfg reader (request version body) = some (.ok (), final) ∧
      final.response = [root] ∧ root.error? = some error ∧
      (error = 0 → world.CodeStored email final) ∧ (¬ world.CodeStored email final → error ≠ 0) := by
  obtain ⟨member, hmember⟩ := member_of_field hemail
  have hstored (response : List JsonValue) (herror : (world.clientReply email).1.error = 0) :
      world.CodeStored email ⟨(world.clientReply email).2, response⟩ :=
    world.codeStored_of_clientReply herror response
  refine ⟨_, .object [(ascii "error", .int (world.clientReply email).1.error),
    (ascii "email", member)], _, ?_, rfl, rfl, hstored _, mt (hstored _)⟩
  have hbody : (request version body).request_.body = body := rfl
  rw [getVerifyCode_eq, LogicSystem.get_verifycode, Program.interp_raising_bind, run_readBody, hbody,
    hreader, Option.bind_some]
  exact world.run_get_verifycode_parsed hemail hmember

def unreachableRedis : VerifyWorld :=
  ⟨ascii "verify:", Redis.init, fun _ => 7, .raised false, .completed, ⟨0, [], []⟩⟩

theorem error_of_get_verifycode_unreachable :
    ∃ final root error, unreachableRedis.getVerifyCode ⟨[]⟩
        (fun _ => .ok (some (.object [(ascii "email", .string (ascii "a@b.c"))])))
        (request 11 []) = some (.ok (), final) ∧
      final.response = [root] ∧ root.error? = some error ∧
      (error = 0 → unreachableRedis.CodeStored (ascii "a@b.c") final) ∧
      (¬ unreachableRedis.CodeStored (ascii "a@b.c") final → error ≠ 0) :=
  unreachableRedis.error_of_get_verifycode ⟨[]⟩ _ 11 rfl rfl

end VerifyWorld

end QuickChat
