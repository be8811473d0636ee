import QuickChat.Gate.GateServer
import QuickChat.Proof.RedisMgr

/-!
# The handlers over the stores

Both handlers begin by reading the email, the user and the password. Run against the stores, the
verification step has two ways out: the submitted code is what `Get` finds under the key, and the
handler goes on with nothing changed, or it is not, and the handler is over with nothing called and
nothing changed but the response.
-/

namespace QuickChat

open Text

/-- What both requests submit besides a code. -/
structure GateRequest where
  email : Bytes
  user : Bytes
  passwd : Bytes

/-- The members of the body are convertible, and these are their strings. -/
structure GateRequest.ReadFrom (request : GateRequest) (src_root : JsonValue) : Prop where
  email : src_root.field "email" = .ok request.email
  user : src_root.field "user" = .ok request.user
  passwd : src_root.field "passwd" = .ok request.passwd

theorem GateRequest.ReadFrom.unique {request other : GateRequest} {src_root : JsonValue}
    (hread : request.ReadFrom src_root) (hother : other.ReadFrom src_root) : request = other := by
  obtain ⟨email, user, passwd⟩ := request
  obtain ⟨email', user', passwd'⟩ := other
  obtain rfl := Except.ok.inj (hread.email.symm.trans hother.email)
  obtain rfl := Except.ok.inj (hread.user.symm.trans hother.user)
  obtain rfl := Except.ok.inj (hread.passwd.symm.trans hother.passwd)
  rfl

section Submitted

variable (request : GateRequest) (parse : Bytes → Option JsonValue) (body : Bytes)

def GateRequest.Submitted (verifycode : Bytes) : Prop :=
  ∃ src_root, parse body = some src_root ∧ request.ReadFrom src_root ∧
    src_root.field "verifycode" = .ok verifycode

/-- The body submits the request, a confirmation of its password and the code. -/
def GateRequest.SubmittedWith (confirm verifycode : Bytes) : Prop :=
  ∃ src_root, parse body = some src_root ∧ request.ReadFrom src_root ∧
    src_root.field "confirm" = .ok confirm ∧ src_root.field "verifycode" = .ok verifycode

variable {request parse body} {other : GateRequest} {confirm confirm' verifycode code : Bytes}

theorem GateRequest.Submitted.unique (hsubmitted : request.Submitted parse body verifycode)
    (hother : other.Submitted parse body code) : request = other ∧ verifycode = code := by
  obtain ⟨src_root, hparse, hread, hcode⟩ := hsubmitted
  obtain ⟨src_root', hparse', hread', hcode'⟩ := hother
  obtain rfl := Option.some.inj (hparse.symm.trans hparse')
  exact ⟨hread.unique hread', Except.ok.inj (hcode.symm.trans hcode')⟩

theorem GateRequest.SubmittedWith.unique
    (hsubmitted : request.SubmittedWith parse body confirm verifycode)
    (hother : other.SubmittedWith parse body confirm' code) :
    request = other ∧ confirm = confirm' ∧ verifycode = code := by
  obtain ⟨src_root, hparse, hread, hconfirm, hcode⟩ := hsubmitted
  obtain ⟨src_root', hparse', hread', hconfirm', hcode'⟩ := hother
  obtain rfl := Option.some.inj (hparse.symm.trans hparse')
  exact ⟨hread.unique hread', Except.ok.inj (hconfirm.symm.trans hconfirm'),
    Except.ok.inj (hcode.symm.trans hcode')⟩

end Submitted

namespace GateServer

variable {α β : Type} (reg_user : RegUserProcedure) (server : GateServer)

@[simp]
theorem run_pure (value : α) :
    run reg_user (pure value) server = some (.ok value, server) := rfl

/-- **The rule of composition.** What raises an error ends the handler. -/
theorem run_bind (handler : GateHandler α) (second : α → GateHandler β) :
    run reg_user (handler >>= second) server =
      (run reg_user handler server).bind fun
        | (.ok value, server) => run reg_user (second value) server
        | (.error e, server) => some (.error e, server) := by
  rw [run, ExceptT.run_bind, Program.interp_bind]
  change (run reg_user handler server).bind _ = _
  cases run reg_user handler server with
  | none => rfl
  | some result =>
      obtain ⟨outcome, server⟩ := result
      cases outcome <;> rfl

theorem run_RedisGet (key : Bytes) :
    run reg_user (LogicSystem.RedisGet key) server = some (.ok (match server.redis.text key with
      | some s => (true, s)
      | none => (false, [])), server) := by
  change ((RedisMgr.run (RedisMgr.Get key []) server.redis).map _).bind _ = _
  rw [RedisMgr.run_Get]
  cases server.redis.text key <;> rfl

theorem run_respond (root : JsonValue) :
    run reg_user (LogicSystem.respond root) server
      = some (.ok (), { server with response := server.response ++ [root] }) := rfl

theorem run_field (src_root : JsonValue) (key : String) :
    run reg_user (LogicSystem.field src_root key) server = some (src_root.field key, server) := by
  cases hfield : src_root.field key with
  | error e => rw [LogicSystem.field, hfield]; rfl
  | ok value => rw [LogicSystem.field, hfield]; rfl

theorem run_field_bind_ok {src_root : JsonValue} {key : String} {value : Bytes}
    (hfield : src_root.field key = .ok value) (second : Bytes → GateHandler α) :
    run reg_user (LogicSystem.field src_root key >>= second) server
      = run reg_user (second value) server := by
  rw [run_bind, run_field, hfield]
  rfl

theorem run_field_bind_error {src_root : JsonValue} {key : String} {e : LogicError}
    (hfield : src_root.field key = .error e) (second : Bytes → GateHandler α) :
    run reg_user (LogicSystem.field src_root key >>= second) server = some (.error e, server) := by
  rw [run_bind, run_field, hfield]
  rfl

theorem run_RegUser (name email pwd : Bytes) :
    run reg_user (LogicSystem.RegUser name email pwd) server =
      some (.ok (Mysql.run reg_user (MysqlDao.RegUser name email pwd) server.mysql).1,
        { server with
          mysql := (Mysql.run reg_user (MysqlDao.RegUser name email pwd) server.mysql).2
          calls := server.calls ++ [.RegUser name email pwd] }) := rfl

theorem run_CheckEmail (name email : Bytes) :
    run reg_user (LogicSystem.CheckEmail name email) server =
      some (.ok (Mysql.run reg_user (MysqlDao.CheckEmail name email) server.mysql).1,
        { server with
          mysql := (Mysql.run reg_user (MysqlDao.CheckEmail name email) server.mysql).2
          calls := server.calls ++ [.CheckEmail name email] }) := rfl

theorem run_UpdatePwd (name pwd : Bytes) :
    run reg_user (LogicSystem.UpdatePwd name pwd) server =
      some (.ok (Mysql.run reg_user (MysqlDao.UpdatePwd name pwd) server.mysql).1,
        { server with
          mysql := (Mysql.run reg_user (MysqlDao.UpdatePwd name pwd) server.mysql).2
          calls := server.calls ++ [.UpdatePwd name pwd] }) := rfl

/-! ### What every handler keeps -/

/-- A call of a handler leaves Redis alone, and is written down. -/
theorem serve_keeps {call : GateCall} {answer : call.Answer} {next : GateServer}
    (hcall : (serve reg_user call).run server = some (answer, next)) :
    next.redis = server.redis ∧ server.calls <+: next.calls := by
  cases call with
  | RedisGet key =>
      change (RedisMgr.run (RedisMgr.Get key []) server.redis).map _ = some (answer, next) at hcall
      rw [RedisMgr.run_Get, Option.map_some, Option.some.injEq] at hcall
      obtain ⟨-, rfl⟩ := Prod.mk.inj hcall
      cases server.redis.text key <;> exact ⟨rfl, List.prefix_rfl⟩
  | RegUser name email pwd =>
      obtain ⟨-, rfl⟩ := Prod.mk.inj (Option.some.inj hcall)
      exact ⟨rfl, List.prefix_append _ _⟩
  | CheckEmail name email =>
      obtain ⟨-, rfl⟩ := Prod.mk.inj (Option.some.inj hcall)
      exact ⟨rfl, List.prefix_append _ _⟩
  | UpdatePwd name pwd =>
      obtain ⟨-, rfl⟩ := Prod.mk.inj (Option.some.inj hcall)
      exact ⟨rfl, List.prefix_append _ _⟩
  | respond root =>
      obtain ⟨-, rfl⟩ := Prod.mk.inj (Option.some.inj hcall)
      exact ⟨rfl, List.prefix_rfl⟩

theorem run_keeps {handler : GateHandler α} {result : Except LogicError α} {after : GateServer}
    (hrun : run reg_user handler server = some (result, after)) :
    after.redis = server.redis ∧ server.calls <+: after.calls := by
  refine Program.interp_invariant
    (P := fun state => state.redis = server.redis ∧ server.calls <+: state.calls)
    ?_ ⟨rfl, List.prefix_rfl⟩ hrun
  intro call state answer next hstate hcall
  obtain ⟨hredis, hcalls⟩ := serve_keeps reg_user state hcall
  exact ⟨hredis.trans hstate.1, hstate.2.trans hcalls⟩

/-- A handler always comes to something: every call that it makes is answered. -/
theorem run_total (handler : GateHandler α) :
    ∃ result after, run reg_user handler server = some (result, after) := by
  refine Program.interp_total (fun call state => ?_) handler.run server
  cases call with
  | RedisGet key =>
      change ∃ answer next, (RedisMgr.run (RedisMgr.Get key []) state.redis).map _ = some (answer, next)
      rw [RedisMgr.run_Get]
      exact ⟨_, _, rfl⟩
  | RegUser name email pwd => exact ⟨_, _, rfl⟩
  | CheckEmail name email => exact ⟨_, _, rfl⟩
  | UpdatePwd name pwd => exact ⟨_, _, rfl⟩
  | respond root => exact ⟨_, _, rfl⟩

/-! ### Reading the request -/

def readRequest (src_root : JsonValue) (next : Bytes → Bytes → Bytes → GateHandler α) :
    GateHandler α := do
  let email ← LogicSystem.field src_root "email"
  let name ← LogicSystem.field src_root "user"
  let pwd ← LogicSystem.field src_root "passwd"
  next email name pwd

theorem run_readRequest_of_read {src_root : JsonValue} {request : GateRequest}
    (hread : request.ReadFrom src_root) (next : Bytes → Bytes → Bytes → GateHandler α) :
    run reg_user (readRequest src_root next) server
      = run reg_user (next request.email request.user request.passwd) server := by
  rw [readRequest, run_field_bind_ok _ _ hread.email, run_field_bind_ok _ _ hread.user,
    run_field_bind_ok _ _ hread.passwd]

theorem run_readRequest_of_not_read {src_root : JsonValue}
    (hnot : ∀ request : GateRequest, ¬ request.ReadFrom src_root)
    (next : Bytes → Bytes → Bytes → GateHandler α) :
    ∃ e, run reg_user (readRequest src_root next) server = some (.error e, server) := by
  rw [readRequest]
  cases hemail : src_root.field "email" with
  | error e => exact ⟨e, run_field_bind_error _ _ hemail _⟩
  | ok email =>
      rw [run_field_bind_ok _ _ hemail]
      cases huser : src_root.field "user" with
      | error e => exact ⟨e, run_field_bind_error _ _ huser _⟩
      | ok user =>
          rw [run_field_bind_ok _ _ huser]
          cases hpasswd : src_root.field "passwd" with
          | error e => exact ⟨e, run_field_bind_error _ _ hpasswd _⟩
          | ok passwd => exact absurd ⟨hemail, huser, hpasswd⟩ (hnot ⟨email, user, passwd⟩)

/-! ### The verification step -/

theorem errorRoot_error (code : ErrorCodes) :
    (LogicSystem.errorRoot code).error? = some code.value := rfl

def verifyKey (cfg : ConfigMgr) (email : Bytes) : Bytes :=
  cfg.value "Redis" "verify_prefix" ++ email

variable {server} {cfg : ConfigMgr} {src_root : JsonValue} {email : Bytes}

theorem run_verification_of_text {verifycode : Bytes}
    (hfield : src_root.field "verifycode" = .ok verifycode)
    (htext : server.redis.text (verifyKey cfg email) = some verifycode)
    (next : Bytes → GateHandler Bool) :
    run reg_user (LogicSystem.verification cfg src_root email next) server
      = run reg_user (next verifycode) server := by
  rw [verifyKey] at htext
  rw [LogicSystem.verification, run_bind, run_RedisGet, htext]
  simp [run_field_bind_ok reg_user server hfield]

/-- Without the code in Redis the handler replies and does nothing else. -/
theorem run_verification_of_no_text (server : GateServer)
    (hnot : ∀ verifycode, src_root.field "verifycode" = .ok verifycode →
      server.redis.text (verifyKey cfg email) ≠ some verifycode)
    (next : Bytes → GateHandler Bool) :
    ∃ result response, run reg_user (LogicSystem.verification cfg src_root email next) server
        = some (result, { server with response := response }) ∧
      (response = server.response ∨
        ∃ code : ErrorCodes, code ≠ .Success ∧
          response = server.response ++ [LogicSystem.errorRoot code]) := by
  rw [LogicSystem.verification, run_bind, run_RedisGet, Option.bind_some]
  cases htext : server.redis.text (cfg.value "Redis" "verify_prefix" ++ email) with
  | none =>
      exact ⟨_, _, rfl, .inr ⟨.VerifyExpired, by decide, rfl⟩⟩
  | some verify_code =>
      cases hfield : src_root.field "verifycode" with
      | error e =>
          refine ⟨.error e, server.response, ?_, .inl rfl⟩
          simp [run_field_bind_error reg_user server hfield]
      | ok verifycode =>
          have hne : verify_code ≠ verifycode := fun heq =>
            hnot verifycode hfield (heq ▸ htext)
          refine ⟨.ok true, server.response ++ [LogicSystem.errorRoot .VerifyCodeErr], ?_,
            .inr ⟨.VerifyCodeErr, by decide, rfl⟩⟩
          simp only [not_true, if_false]
          rw [run_field_bind_ok reg_user server hfield, if_pos hne]
          rfl

end GateServer

end QuickChat
