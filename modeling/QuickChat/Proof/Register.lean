import QuickChat.Proof.GateHandlers

/-!
# Registration

A request of `/user_register` either ends before `MysqlMgr` is called, with only errors in the
response, or it comes to `RegUser`, and what brings it there is the code under its email. The
passwords are compared on the way and stop nothing.
-/

namespace QuickChat

open Text

namespace GateServer

variable (reg_user : RegUserProcedure) {cfg : ConfigMgr} {parse : Bytes → Option JsonValue}
  {redis : Redis} (mysql : Mysql) {body : Bytes}

/-! ### What the property asks for -/

/-- The request submits a password and its confirmation, and the code that is stored under the
prefix and its email. -/
def MayRegister (cfg : ConfigMgr) (parse : Bytes → Option JsonValue) (redis : Redis)
    (body : Bytes) : Prop :=
  ∃ (request : GateRequest) (verifycode : Bytes),
    request.SubmittedWith parse body request.passwd verifycode ∧
    redis.lookup (verifyKey cfg request.email) = some (.string verifycode)

/-- `RegUser` is called only for a request that may register, and a reply with one of the four errors
leaves the table as it was. -/
structure RegistersSafely (cfg : ConfigMgr) (parse : Bytes → Option JsonValue) (redis : Redis)
    (mysql : Mysql) (body : Bytes) (after : GateServer) : Prop where
  guarded : ∀ name email pwd, .RegUser name email pwd ∈ after.calls →
    MayRegister cfg parse redis body
  unchanged : ∀ code ∈ [ErrorCodes.PasswdErr, .VerifyExpired, .VerifyCodeErr, .Error_Json],
    after.Reports code → after.mysql.user = mysql.user

/-! ### What the handler does -/

/-- The check of the passwords writes its document, and the handler goes on. -/
theorem run_passwd_check (server : GateServer) (pwd confirm : Bytes) (next : GateHandler Bool) :
    run reg_user (do
      if pwd ≠ confirm then LogicSystem.respond (LogicSystem.errorRoot .PasswdErr)
      next) server =
    run reg_user next { server with response := server.response ++
      if pwd ≠ confirm then [LogicSystem.errorRoot .PasswdErr] else [] } := by
  by_cases hpwd : pwd ≠ confirm
  · rw [if_pos hpwd, if_pos hpwd, run_bind, run_respond]
    rfl
  · rw [if_neg hpwd, if_neg hpwd, List.append_nil]

theorem run_user_register_of_read {src_root : JsonValue} {request : GateRequest} {confirm : Bytes}
    (hparse : parse body = some src_root) (hread : request.ReadFrom src_root)
    (hconfirm : src_root.field "confirm" = .ok confirm) :
    run reg_user (LogicSystem.user_register cfg parse body) (start redis mysql) =
      run reg_user (LogicSystem.verification cfg src_root request.email
        (LogicSystem.user_register_verified request.email request.user request.passwd confirm))
        { start redis mysql with response :=
          if request.passwd ≠ confirm then [LogicSystem.errorRoot .PasswdErr] else [] } := by
  rw [LogicSystem.user_register, hparse]
  apply (run_readRequest_of_read _ _ hread _).trans
  rw [run_field_bind_ok _ _ hconfirm]
  exact run_passwd_check _ _ _ _ _

theorem run_user_register_of_not_read {src_root : JsonValue} (hparse : parse body = some src_root)
    (hnot : ∀ (request : GateRequest) (confirm : Bytes),
      request.ReadFrom src_root → src_root.field "confirm" ≠ .ok confirm) :
    ∃ e, run reg_user (LogicSystem.user_register cfg parse body) (start redis mysql)
      = some (.error e, start redis mysql) := by
  rw [LogicSystem.user_register, hparse]
  by_cases hread : ∃ request : GateRequest, request.ReadFrom src_root
  · obtain ⟨request, hread⟩ := hread
    cases hconfirm : src_root.field "confirm" with
    | error e =>
        refine ⟨e, (run_readRequest_of_read _ _ hread _).trans ?_⟩
        exact run_field_bind_error _ _ hconfirm _
    | ok confirm => exact absurd hconfirm (hnot request confirm hread)
  · exact run_readRequest_of_not_read _ _ (not_exists.mp hread) _

/-- Without the code, `RegUser` is not called. -/
theorem run_user_register_of_no_text
    (hnot : ∀ (request : GateRequest) (confirm verifycode : Bytes),
      request.SubmittedWith parse body confirm verifycode →
      redis.text (verifyKey cfg request.email) ≠ some verifycode) :
    ∃ result response, run reg_user (LogicSystem.user_register cfg parse body) (start redis mysql)
      = some (result, { start redis mysql with response := response }) := by
  cases hparse : parse body with
  | none =>
      refine ⟨.ok true, [LogicSystem.errorRoot .Error_Json], ?_⟩
      rw [LogicSystem.user_register, hparse]
      rfl
  | some src_root =>
      by_cases hread : ∃ (request : GateRequest) (confirm : Bytes),
          request.ReadFrom src_root ∧ src_root.field "confirm" = .ok confirm
      · obtain ⟨request, confirm, hread, hconfirm⟩ := hread
        rw [run_user_register_of_read _ _ hparse hread hconfirm]
        obtain ⟨result, response, hrun, -⟩ := run_verification_of_no_text reg_user
          { start redis mysql with response :=
            if request.passwd ≠ confirm then [LogicSystem.errorRoot .PasswdErr] else [] }
          (fun verifycode hcode => hnot request confirm verifycode
            ⟨src_root, hparse, hread, hconfirm, hcode⟩)
          (LogicSystem.user_register_verified request.email request.user request.passwd confirm)
        exact ⟨result, response, hrun⟩
      · simp only [not_exists, not_and] at hread
        obtain ⟨e, hrun⟩ := run_user_register_of_not_read reg_user mysql hparse hread
        exact ⟨.error e, [], hrun⟩

/-- Behind the verification step `RegUser` is called, whatever the passwords were. -/
theorem run_user_register_verified (email name pwd confirm verifycode : Bytes)
    (server : GateServer) :
    ∃ root, (root.error? = some 0 ∨ root.error? = some ErrorCodes.UserExist.value) ∧
      run reg_user (LogicSystem.user_register_verified email name pwd confirm verifycode) server =
        some (.ok true, { server with
          mysql := (Mysql.run reg_user (MysqlDao.RegUser name email pwd) server.mysql).2
          calls := server.calls ++ [.RegUser name email pwd]
          response := server.response ++ [root] }) := by
  rw [LogicSystem.user_register_verified, run_bind, run_RegUser, Option.bind_some]
  by_cases huid : (Mysql.run reg_user (MysqlDao.RegUser name email pwd) server.mysql).1 = 0 ∨
      (Mysql.run reg_user (MysqlDao.RegUser name email pwd) server.mysql).1 = -1
  · refine ⟨LogicSystem.errorRoot .UserExist, .inr (errorRoot_error _), ?_⟩
    simp only [if_pos huid]
    rfl
  · refine ⟨?root, .inl ?hroot, ?hrun⟩
    case hrun =>
      simp only [if_neg huid]
      rfl
    case hroot => rfl

/-- The right code brings the handler to `RegUser`, and only a difference of the passwords has been
written by then. -/
theorem run_user_register_of_text {request : GateRequest} {confirm verifycode : Bytes}
    (hsubmitted : request.SubmittedWith parse body confirm verifycode)
    (htext : redis.text (verifyKey cfg request.email) = some verifycode) :
    ∃ root, (root.error? = some 0 ∨ root.error? = some ErrorCodes.UserExist.value) ∧
      run reg_user (LogicSystem.user_register cfg parse body) (start redis mysql) =
        some (.ok true, ⟨redis,
          (Mysql.run reg_user
            (MysqlDao.RegUser request.user request.email request.passwd) mysql).2,
          (if request.passwd ≠ confirm then [LogicSystem.errorRoot .PasswdErr] else []) ++ [root],
          [.RegUser request.user request.email request.passwd]⟩) := by
  obtain ⟨src_root, hparse, hread, hconfirm, hcode⟩ := hsubmitted
  rw [run_user_register_of_read _ _ hparse hread hconfirm, run_verification_of_text _ hcode htext]
  exact run_user_register_verified _ _ _ _ _ _ _

/-! ### When registration is safe -/

theorem mayRegister_iff_of_submitted {request : GateRequest} {confirm verifycode : Bytes}
    (hsubmitted : request.SubmittedWith parse body confirm verifycode) :
    MayRegister cfg parse redis body ↔ request.passwd = confirm ∧
      redis.lookup (verifyKey cfg request.email) = some (.string verifycode) := by
  constructor
  · rintro ⟨request', verifycode', hsubmitted', hlookup⟩
    obtain ⟨rfl, rfl, rfl⟩ := hsubmitted.unique hsubmitted'
    exact ⟨rfl, hlookup⟩
  · rintro ⟨rfl, hlookup⟩
    exact ⟨request, verifycode, hsubmitted, hlookup⟩

/-- **When registration is safe.** For any body and any stores, `RegUser` is called only for a request
that may register and the four errors mean an unchanged table, if and only if a body with the code
that `Get` finds submits two equal passwords, and that code stands under the prefix and the whole of
the email. -/
theorem registers_safely_iff (reg_user : RegUserProcedure) (cfg : ConfigMgr)
    (parse : Bytes → Option JsonValue) (redis : Redis) (mysql : Mysql) (body : Bytes) :
    ∃ result after,
      run reg_user (LogicSystem.user_register cfg parse body) (start redis mysql)
        = some (result, after) ∧
      (RegistersSafely cfg parse redis mysql body after ↔
        ∀ (request : GateRequest) (confirm verifycode : Bytes),
          request.SubmittedWith parse body confirm verifycode →
          redis.text (verifyKey cfg request.email) = some verifycode →
          request.passwd = confirm ∧
            redis.lookup (verifyKey cfg request.email) = some (.string verifycode)) := by
  by_cases hreached : ∃ (request : GateRequest) (confirm verifycode : Bytes),
      request.SubmittedWith parse body confirm verifycode ∧
      redis.text (verifyKey cfg request.email) = some verifycode
  · obtain ⟨request, confirm, verifycode, hsubmitted, htext⟩ := hreached
    obtain ⟨root, hroot, hrun⟩ := run_user_register_of_text reg_user mysql hsubmitted htext
    refine ⟨_, _, hrun, ?_⟩
    constructor
    · intro hsafe request' confirm' verifycode' hsubmitted' htext'
      apply (mayRegister_iff_of_submitted hsubmitted').mp
      exact hsafe.guarded request.user request.email request.passwd (List.mem_singleton.mpr rfl)
    · intro hall
      obtain ⟨hpasswd, hlookup⟩ := hall request confirm verifycode hsubmitted htext
      have hmay := (mayRegister_iff_of_submitted hsubmitted).mpr ⟨hpasswd, hlookup⟩
      refine ⟨fun _ _ _ _ => hmay, fun code hcode hreports => ?_⟩
      -- with equal passwords the one document is the last, which has none of the four errors
      obtain ⟨doc, hdoc, herror⟩ := hreports
      rw [if_neg (not_not_intro hpasswd), List.nil_append, List.mem_singleton] at hdoc
      subst hdoc
      exfalso
      have hother : code ≠ .Success ∧ code ≠ .UserExist := by
        simp only [List.mem_cons, List.not_mem_nil, or_false] at hcode
        rcases hcode with rfl | rfl | rfl | rfl <;> decide
      rw [herror] at hroot
      rcases hroot with hzero | hexist
      · exact absurd (ErrorCodes.value_injective (Option.some.inj hzero)) hother.1
      · exact absurd (ErrorCodes.value_injective (Option.some.inj hexist)) hother.2
  · simp only [not_exists, not_and] at hreached
    obtain ⟨result, response, hrun⟩ := run_user_register_of_no_text reg_user mysql hreached
    refine ⟨result, _, hrun, ?_⟩
    have hsafe : RegistersSafely cfg parse redis mysql body
        { start redis mysql with response := response } :=
      ⟨fun _ _ _ hcall => absurd hcall List.not_mem_nil, fun _ _ _ => rfl⟩
    apply iff_of_true hsafe
    intro request confirm verifycode hsubmitted htext
    exact absurd htext (hreached request confirm verifycode hsubmitted)

/-! ### Two passwords -/

def twoPasswords : Bytes :=
  ascii "\x7b\"email\":\"e\",\"user\":\"u\",\"passwd\":\"p\",\"confirm\":\"q\",\"verifycode\":\"123456\"\x7d"

def parseTwoPasswords (body : Bytes) : Option JsonValue :=
  if body = twoPasswords then
    some (.object [(ascii "confirm", .string (ascii "q")), (ascii "email", .string (ascii "e")),
      (ascii "passwd", .string (ascii "p")), (ascii "user", .string (ascii "u")),
      (ascii "verifycode", .string (ascii "123456"))])
  else none

/-- The user is registered after the reply has said that the passwords differ. -/
theorem registers_two_passwords :
    ∃ result after,
      run (fun user name email pwd => (1, user ++ [⟨1, name, email, pwd⟩]))
        (LogicSystem.user_register ⟨[]⟩ parseTwoPasswords twoPasswords)
        (start (Redis.init.put (ascii "e") (some (.string (ascii "123456"), none))) ⟨[], 0, []⟩)
        = some (result, after) ∧
      after.Reports .PasswdErr ∧ after.mysql.user = [⟨1, ascii "u", ascii "e", ascii "p"⟩] ∧
      ¬ RegistersSafely ⟨[]⟩ parseTwoPasswords
        (Redis.init.put (ascii "e") (some (.string (ascii "123456"), none))) ⟨[], 0, []⟩
        twoPasswords after := by
  refine ⟨.ok true, _, rfl, ?_, rfl, fun hsafe => ?_⟩
  · exact ⟨_, List.mem_cons_self, rfl⟩
  · have huser := hsafe.unchanged .PasswdErr List.mem_cons_self ⟨_, List.mem_cons_self, rfl⟩
    exact absurd huser (List.cons_ne_nil _ _)

end GateServer

end QuickChat
