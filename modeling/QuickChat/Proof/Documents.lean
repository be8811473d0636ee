import QuickChat.Proof.HttpResponse
import QuickChat.Proof.Register

/-!
# One document for a request

A handler of a POST request is left right after it has written a document, in all places but one:
`/user_register` goes on when it has written that the passwords differ, and writes a second document
later. Apart from that the body is one document, and its code is 0 only at the end of a handler all of
whose calls and checks went well.
-/

namespace QuickChat

open Text

abbrev HttpTrace := List ((effect : HttpCall) × effect.Answer)

namespace HttpTrace

def piece : ((effect : HttpCall) × effect.Answer) → Option (Bytes ⊕ JsonValue)
  | ⟨.write text, _⟩ => some (.inl text)
  | ⟨.gate (.respond root), _⟩ => some (.inr root)
  | _ => none

def body (trace : HttpTrace) : List (Bytes ⊕ JsonValue) := trace.filterMap piece

def isCall : HttpCall → Bool
  | .gate (.respond _) => false
  | .gate _ => true
  | .CheckPwd _ _ => true
  | .GetVerifyCode _ => true
  | .GetChatServer _ => true
  | _ => false

def calls (trace : HttpTrace) : HttpTrace := trace.filter fun entry => isCall entry.1

end HttpTrace

namespace LogicSystem

open HttpConnection Program

variable {cfg : ConfigMgr} {reader : JsonReader} {con : HttpConnection}

/-- The calls of a handler of which every one succeeded, and whose checks came out well. -/
inductive Completed (cfg : ConfigMgr) (src_root : JsonValue) : Bytes → HttpTrace → Prop where
  | get_verifycode {email : Bytes} {rsp : GetVerifyRsp}
      (hemail : src_root.field "email" = .ok email) (hrsp : rsp.error = 0) :
      Completed cfg src_root (ascii "/get_verifycode") [⟨.GetVerifyCode email, rsp⟩]
  | user_register {email name pwd verifycode : Bytes} {uid : Int}
      (hemail : src_root.field "email" = .ok email) (hname : src_root.field "user" = .ok name)
      (hpwd : src_root.field "passwd" = .ok pwd) (hconfirm : src_root.field "confirm" = .ok pwd)
      (hcode : src_root.field "verifycode" = .ok verifycode) (huid : uid ≠ 0 ∧ uid ≠ -1) :
      Completed cfg src_root (ascii "/user_register")
        [⟨.gate (.RedisGet (cfg.value "Redis" "verify_prefix" ++ email)), (true, verifycode)⟩,
          ⟨.gate (.RegUser name email pwd), uid⟩]
  | reset_pwd {email name pwd verifycode : Bytes}
      (hemail : src_root.field "email" = .ok email) (hname : src_root.field "user" = .ok name)
      (hpwd : src_root.field "passwd" = .ok pwd)
      (hcode : src_root.field "verifycode" = .ok verifycode) :
      Completed cfg src_root (ascii "/reset_pwd")
        [⟨.gate (.RedisGet (cfg.value "Redis" "verify_prefix" ++ email)), (true, verifycode)⟩,
          ⟨.gate (.CheckEmail name email), true⟩, ⟨.gate (.UpdatePwd name pwd), true⟩]
  | user_login {name pwd : Bytes} {userInfo : UserInfo} {reply : GetChatServerRsp}
      (hname : src_root.field "user" = .ok name) (hpwd : src_root.field "passwd" = .ok pwd)
      (hreply : reply.error = 0) :
      Completed cfg src_root (ascii "/user_login")
        [⟨.CheckPwd name pwd, some userInfo⟩, ⟨.GetChatServer userInfo.uid, reply⟩]

/-- The trace writes one object with one error code, which is 0 only if the calls made satisfy `P`. -/
def WritesOne (P : HttpTrace → Prop) (trace : HttpTrace) : Prop :=
  ∃ members code, trace.body = [.inr (.object members)] ∧
    members.filter (·.1 = ascii "error") = [(ascii "error", .int code)] ∧ (code = 0 → P trace.calls)

/-- The body is one object with one error code, which is 0 only if everything succeeded. -/
def OneDocument (cfg : ConfigMgr) (reader : JsonReader) (request : HttpRequest)
    (trace : HttpTrace) : Prop :=
  WritesOne (fun calls => ∃ src_root, reader request.body = .ok (some src_root) ∧
    Completed cfg src_root request.target calls) trace

def PasswordsDiffer (reader : JsonReader) (request : HttpRequest) : Prop :=
  request.target = ascii "/user_register" ∧
    ∃ src_root pwd confirm, reader request.body = .ok (some src_root) ∧
      src_root.field "passwd" = .ok pwd ∧ src_root.field "confirm" = .ok confirm ∧ pwd ≠ confirm

/-! ### What a handler leaves -/

def record (trace : HttpTrace) (effect : HttpCall) (answer : effect.Answer) : HttpTrace :=
  trace ++ [⟨effect, answer⟩]

def recordGate (trace : HttpTrace) (call : GateCall) (answer : call.Answer) : HttpTrace :=
  trace ++ [⟨.gate call, answer⟩]

theorem foldl_record (trace sofar : HttpTrace) :
    trace.foldl (fun sofar entry => record sofar entry.1 entry.2) sofar = sofar ++ trace := by
  induction trace generalizing sofar with
  | nil => rw [List.foldl_nil, List.append_nil]
  | cons entry trace ih => rw [List.foldl_cons, ih, record, List.append_assoc]; rfl

theorem returning_gate {α : Type} {handler : GateHandler α} {Q : HttpTrace → α → Prop}
    {sofar : HttpTrace} :
    Returning record (gate handler) Q sofar ↔ Returning recordGate handler Q sofar := by
  have hinterp {β : Type} (program : GateProgram β) (Q : HttpTrace → β → Prop) (sofar : HttpTrace) :
      (program.interp performGate).wp record (fun _ _ => True) (fun _ => True) Q sofar ↔
        program.wp recordGate (fun _ _ => True) (fun _ => True) Q sofar := by
    induction program generalizing sofar with
    | ret value => exact Iff.rfl
    | call effect next ih =>
        constructor
        · intro hall
          exact ⟨trivial, fun answer _ => (ih answer _).mp (hall.2 answer trivial)⟩
        · intro hall
          exact ⟨trivial, fun answer _ => (ih answer _).mpr (hall.2 answer trivial)⟩
  rw [Returning, gate, ExceptT.run_mk, wp_bind, hinterp, Returning]
  refine wp_congr fun trace result => ?_
  cases result with
  | error e => simp [Except.mapError]
  | ok value => simp [Except.mapError]

/-! ### One document -/

section Writing

variable {P P' : HttpTrace → Prop} {sofar trace : HttpTrace}

def Adds (P : HttpTrace → Prop) (sofar trace : HttpTrace) : Prop :=
  ∃ tail, trace = sofar ++ tail ∧ WritesOne P tail

theorem Adds.mono (hP : ∀ calls, P calls → P' calls) (hadds : Adds P sofar trace) :
    Adds P' sofar trace := by
  obtain ⟨tail, htrace, members, code, hbody, herror, hcalls⟩ := hadds
  exact ⟨tail, htrace, members, code, hbody, herror, fun hcode => hP _ (hcalls hcode)⟩

theorem adds_document {members : List (Bytes × JsonValue)} (code : Int)
    (herror : members.filter (·.1 = ascii "error") = [(ascii "error", .int code)])
    (hcode : code = 0 → P []) :
    Adds P sofar (sofar ++ [⟨.gate (.respond (.object members)), ()⟩]) :=
  ⟨_, rfl, members, code, rfl, herror, hcode⟩

theorem adds_errorRoot {code : ErrorCodes} (hcode : code.value ≠ 0) :
    Adds P sofar (sofar ++ [⟨.gate (.respond (errorRoot code)), ()⟩]) :=
  adds_document code.value (by rw [List.filter_singleton]; rfl) (fun hzero => absurd hzero hcode)

/-- A call in front of the document is one of those that the error 0 vouches for. -/
theorem Adds.call (entry : (effect : HttpCall) × effect.Answer)
    (hpiece : HttpTrace.piece entry = none) (hcall : HttpTrace.isCall entry.1 = true)
    (hadds : Adds (fun calls => P (entry :: calls)) (sofar ++ [entry]) trace) :
    Adds P sofar trace := by
  obtain ⟨tail, htrace, members, code, hbody, herror, hcalls⟩ := hadds
  refine ⟨entry :: tail, by rw [htrace, List.append_assoc]; rfl, members, code, ?_, herror, ?_⟩
  · rw [HttpTrace.body, List.filterMap_cons_none hpiece]
    exact hbody
  · rw [HttpTrace.calls, List.filter_cons_of_pos (by simpa using hcall)]
    exact hcalls

end Writing

/-! ### What the handlers add -/

section Handlers

variable {P : HttpTrace → Prop} {sofar : HttpTrace}

theorem returning_respond {root : JsonValue} {Q : HttpTrace → Bool → Prop} :
    Returning recordGate (do respond root; return true) Q sofar ↔
      Q (sofar ++ [⟨.gate (.respond root), ()⟩]) true := by
  constructor
  · intro hall
    exact returning_pure.mp (returning_perform_bind.mp hall ())
  · intro hQ
    exact returning_perform_bind.mpr fun _ => returning_pure.mpr hQ

theorem returning_field {src_root : JsonValue} {key : String} {Q : HttpTrace → Bytes → Prop} :
    Returning recordGate (field src_root key) Q sofar ↔
      ∀ value, src_root.field key = .ok value → Q sofar value :=
  returning_raising

/-- The verification adds a document, unless the code is the one found, which leaves it to `next`. -/
theorem adds_verification {src_root : JsonValue} {email : Bytes} {next : Bytes → GateHandler Bool}
    (hnext : ∀ verifycode sofar, src_root.field "verifycode" = .ok verifycode →
      Returning recordGate (next verifycode)
        (fun trace _ => Adds (fun calls => P (⟨.gate (.RedisGet
          (cfg.value "Redis" "verify_prefix" ++ email)), (true, verifycode)⟩ :: calls)) sofar trace)
        sofar) :
    Returning recordGate (verification cfg src_root email next) (fun trace _ => Adds P sofar trace)
      sofar := by
  apply returning_perform_bind.mpr
  rintro ⟨b_get_verify, verify_code⟩
  cases b_get_verify with
  | false => exact returning_respond.mpr (Adds.call _ rfl rfl (adds_errorRoot (by decide)))
  | true =>
      simp only [not_true_eq_false, if_false]
      rw [returning_bind, returning_field]
      intro verifycode hfield
      by_cases hcode : verify_code = verifycode
      · subst hcode
        rw [if_neg (not_not_intro rfl)]
        exact returning_mono (fun _ _ hadds => Adds.call _ rfl rfl hadds) (hnext verify_code _ hfield)
      · rw [if_pos hcode]
        exact returning_respond.mpr (Adds.call _ rfl rfl (adds_errorRoot (by decide)))

/-- The one document has the error 0 exactly behind a uid. -/
theorem adds_user_register_verified (email name pwd confirm verifycode : Bytes) :
    Returning recordGate (user_register_verified email name pwd confirm verifycode)
      (fun trace _ => Adds (fun calls => ∃ uid : Int,
        calls = [⟨.gate (.RegUser name email pwd), uid⟩] ∧ uid ≠ 0 ∧ uid ≠ -1) sofar trace) sofar := by
  apply returning_perform_bind.mpr
  intro (uid : Int)
  by_cases huid : uid = 0 ∨ uid = -1
  · rw [if_pos huid]
    exact returning_respond.mpr (Adds.call _ rfl rfl (adds_errorRoot (by decide)))
  · rw [if_neg huid]
    refine returning_respond.mpr (Adds.call _ rfl rfl (adds_document 0 ?_ fun _ => ?_))
    · rfl
    · exact ⟨uid, rfl, not_or.mp huid⟩

/-- The one document has the error 0 exactly if both functions say yes. -/
theorem adds_reset_pwd_verified (email name pwd verifycode : Bytes) :
    Returning recordGate (reset_pwd_verified email name pwd verifycode)
      (fun trace _ => Adds (fun calls => calls =
        [⟨.gate (.CheckEmail name email), true⟩, ⟨.gate (.UpdatePwd name pwd), true⟩]) sofar trace)
      sofar := by
  apply returning_perform_bind.mpr
  intro (email_valid : Bool)
  cases email_valid with
  | false => exact returning_respond.mpr (Adds.call _ rfl rfl (adds_errorRoot (by decide)))
  | true =>
      apply returning_perform_bind.mpr
      intro (b_up : Bool)
      cases b_up with
      | false =>
          apply returning_respond.mpr
          apply Adds.call ⟨.gate (.CheckEmail name email), true⟩ rfl rfl
          apply Adds.call ⟨.gate (.UpdatePwd name pwd), false⟩ rfl rfl
          exact adds_errorRoot (by decide)
      | true =>
          apply returning_respond.mpr
          apply Adds.call ⟨.gate (.CheckEmail name email), true⟩ rfl rfl
          apply Adds.call ⟨.gate (.UpdatePwd name pwd), true⟩ rfl rfl
          exact adds_document 0 rfl fun _ => rfl

theorem returning_raise {ε α : Type} {toError : ε → HttpError} {result : Except ε α}
    {Q : HttpTrace → α → Prop} :
    Returning record (raising toError result) Q sofar ↔
      ∀ value, result = .ok value → Q sofar value := by
  rw [raising, returning_raising]
  cases result with
  | error e => simp [Except.mapError]
  | ok value => simp [Except.mapError]

theorem returning_gate_respond {root : JsonValue} {Q : HttpTrace → Unit → Prop} :
    Returning record (HttpConnection.gate (respond root)) Q sofar ↔
      Q (sofar ++ [⟨.gate (.respond root), ()⟩]) () := by
  rw [returning_gate]
  constructor
  · intro hall
    exact returning_perform.mp hall ()
  · intro hQ
    exact returning_perform.mpr fun _ => hQ

theorem adds_get_verifycode_parsed (src_root : JsonValue) :
    Returning record (get_verifycode_parsed (some src_root))
      (fun trace _ => Adds (Completed cfg src_root (ascii "/get_verifycode")) sofar trace) sofar := by
  apply returning_bind.mpr
  apply returning_raise.mpr
  intro email hemail
  apply returning_perform_bind.mpr
  intro (rsp : GetVerifyRsp)
  apply returning_bind.mpr
  apply returning_raise.mpr
  intro member hmember
  refine returning_gate_respond.mpr (Adds.call _ rfl rfl (adds_document rsp.error rfl ?_))
  intro hrsp
  exact .get_verifycode hemail hrsp

theorem adds_user_login_parsed (src_root : JsonValue) :
    Returning record (user_login_parsed (some src_root))
      (fun trace _ => Adds (Completed cfg src_root (ascii "/user_login")) sofar trace) sofar := by
  apply returning_bind.mpr
  apply returning_raise.mpr
  intro name hname
  apply returning_bind.mpr
  apply returning_raise.mpr
  intro pwd hpwd
  apply returning_perform_bind.mpr
  intro (userInfo : Option UserInfo)
  cases userInfo with
  | none => exact returning_gate_respond.mpr (Adds.call _ rfl rfl (adds_errorRoot (by decide)))
  | some userInfo =>
      apply returning_perform_bind.mpr
      intro (reply : GetChatServerRsp)
      by_cases hreply : reply.error = 0
      · rw [if_neg (not_not_intro hreply)]
        apply returning_gate_respond.mpr
        apply Adds.call ⟨.CheckPwd name pwd, some userInfo⟩ rfl rfl
        apply Adds.call ⟨.GetChatServer userInfo.uid, reply⟩ rfl rfl
        exact adds_document 0 rfl fun _ => .user_login hname hpwd hreply
      · rw [if_pos hreply]
        apply returning_gate_respond.mpr
        apply Adds.call ⟨.CheckPwd name pwd, some userInfo⟩ rfl rfl
        apply Adds.call ⟨.GetChatServer userInfo.uid, reply⟩ rfl rfl
        exact adds_errorRoot (by decide)

theorem adds_reset_pwd {body : Bytes} (src_root : JsonValue) :
    Returning recordGate (reset_pwd cfg (fun _ => some src_root) body)
      (fun trace _ => Adds (Completed cfg src_root (ascii "/reset_pwd")) sofar trace) sofar := by
  apply returning_bind.mpr
  apply returning_field.mpr
  intro email hemail
  apply returning_bind.mpr
  apply returning_field.mpr
  intro name hname
  apply returning_bind.mpr
  apply returning_field.mpr
  intro pwd hpwd
  apply adds_verification
  intro verifycode sofar hcode
  refine returning_mono (fun trace _ hadds => hadds.mono fun calls hcalls => ?_)
    (adds_reset_pwd_verified email name pwd verifycode)
  rw [hcalls]
  exact .reset_pwd hemail hname hpwd hcode

/-- When the passwords differ, the document that says so is followed by another. -/
theorem adds_user_register {body : Bytes} (src_root : JsonValue) :
    Returning recordGate (user_register cfg (fun _ => some src_root) body)
      (fun trace _ => ∃ pwd confirm, src_root.field "passwd" = .ok pwd ∧
        src_root.field "confirm" = .ok confirm ∧
        if pwd = confirm then Adds (Completed cfg src_root (ascii "/user_register")) sofar trace
        else Adds (fun _ => True) (sofar ++ [⟨.gate (.respond (errorRoot .PasswdErr)), ()⟩]) trace)
      sofar := by
  apply returning_bind.mpr
  apply returning_field.mpr
  intro email hemail
  apply returning_bind.mpr
  apply returning_field.mpr
  intro name hname
  apply returning_bind.mpr
  apply returning_field.mpr
  intro pwd hpwd
  apply returning_bind.mpr
  apply returning_field.mpr
  intro confirm hconfirm
  by_cases heq : pwd = confirm
  · subst heq
    rw [if_neg (not_not_intro rfl)]
    refine returning_mono (fun trace _ hadds => ⟨pwd, pwd, hpwd, hconfirm, (if_pos rfl).mpr hadds⟩)
      (adds_verification ?_)
    intro verifycode sofar hcode
    refine returning_mono (fun trace _ hadds => hadds.mono ?_)
      (adds_user_register_verified email name pwd pwd verifycode)
    rintro calls ⟨uid, rfl, huid⟩
    exact .user_register hemail hname hpwd hconfirm hcode huid
  · rw [if_pos heq]
    apply returning_perform_bind.mpr
    intro answer
    refine returning_mono (fun trace _ hadds => ⟨pwd, confirm, hpwd, hconfirm, (if_neg heq).mpr hadds⟩)
      (adds_verification ?_)
    intro verifycode sofar hcode
    exact returning_mono (fun trace _ hadds => hadds.mono fun _ _ => trivial)
      (adds_user_register_verified email name pwd confirm verifycode)

end Handlers

/-! ### The four handlers -/

theorem returning_readBody_bind {parsed : Option JsonValue → HttpTry Unit}
    {Q : HttpTrace → Unit → Prop} :
    Returning record (readBody reader con >>= parsed) Q [] ↔
      ∀ result, reader con.request_.body = .ok result →
        Returning record (parsed result) Q [⟨.set .content_type "text/json", ()⟩] := by
  rw [returning_bind]
  constructor
  · intro hall result hresult
    exact returning_raising.mp (returning_perform_bind.mp hall ()) result hresult
  · intro hall
    refine returning_perform_bind.mpr fun _ => returning_raising.mpr fun result hresult => ?_
    exact hall result hresult

theorem oneDocument_of_adds {P : HttpTrace → Prop} {trace : HttpTrace}
    (hadds : Adds P [⟨.set .content_type "text/json", ()⟩] trace)
    (hP : ∀ calls, P calls → ∃ src_root, reader con.request_.body = .ok (some src_root) ∧
      Completed cfg src_root con.request_.target calls) :
    OneDocument cfg reader con.request_ trace := by
  obtain ⟨tail, rfl, members, code, hbody, herror, hcalls⟩ := hadds
  exact ⟨members, code, hbody, herror, fun hcode => hP _ (hcalls hcode)⟩

theorem not_oneDocument_of_adds {P : HttpTrace → Prop} {trace : HttpTrace} {root : JsonValue}
    (hadds : Adds P [⟨.set .content_type "text/json", ()⟩, ⟨.gate (.respond root), ()⟩] trace) :
    ¬ OneDocument cfg reader con.request_ trace := by
  obtain ⟨tail, rfl, members, code, hbody, -⟩ := hadds
  rintro ⟨members', code', hbody', -⟩
  have htwo : HttpTrace.body
      ([⟨.set .content_type "text/json", ()⟩, ⟨.gate (.respond root), ()⟩] ++ tail)
      = .inr root :: HttpTrace.body tail := rfl
  rw [htwo, hbody] at hbody'
  exact absurd hbody' (by simp)

/-- A handler that writes one document when the reader fails, and one for a document that is read. -/
theorem oneDocument_posting {parsed : Option JsonValue → HttpTry Unit}
    (hnone : ∀ sofar, Returning record (parsed none)
      (fun trace _ => Adds (fun _ => False) sofar trace) sofar)
    (hsome : ∀ src_root sofar, Returning record (parsed (some src_root))
      (fun trace _ => Adds (Completed cfg src_root con.request_.target) sofar trace) sofar) :
    Returning record (readBody reader con >>= parsed)
      (fun trace _ => OneDocument cfg reader con.request_ trace) [] := by
  refine returning_readBody_bind.mpr fun result hresult => ?_
  cases result with
  | none =>
      exact returning_mono (fun trace _ hadds => oneDocument_of_adds hadds fun _ => False.elim)
        (hnone _)
  | some src_root =>
      refine returning_mono (fun trace _ hadds => oneDocument_of_adds hadds fun calls hcalls => ?_)
        (hsome src_root _)
      exact ⟨src_root, hresult, hcalls⟩

theorem oneDocument_get_verifycode (htarget : con.request_.target = ascii "/get_verifycode") :
    Returning record (get_verifycode reader con)
      (fun trace _ => OneDocument cfg reader con.request_ trace) [] := by
  apply oneDocument_posting
  · intro sofar
    exact returning_gate_respond.mpr (adds_errorRoot (by decide))
  · intro src_root sofar
    rw [htarget]
    exact adds_get_verifycode_parsed src_root

theorem oneDocument_user_login (htarget : con.request_.target = ascii "/user_login") :
    Returning record (user_login reader con)
      (fun trace _ => OneDocument cfg reader con.request_ trace) [] := by
  apply oneDocument_posting
  · intro sofar
    exact returning_gate_respond.mpr (adds_errorRoot (by decide))
  · intro src_root sofar
    rw [htarget]
    exact adds_user_login_parsed src_root

/-- What `parsing` runs for a document, or for a body that is not one. -/
theorem returning_gate_bind {handler : GateHandler Bool} {Q : HttpTrace → Prop} {sofar : HttpTrace} :
    Returning record (do let _ ← HttpConnection.gate handler : HttpTry Unit)
        (fun trace _ => Q trace) sofar ↔
      Returning recordGate handler (fun trace _ => Q trace) sofar := by
  rw [returning_bind, returning_gate]
  simp only [returning_pure]

theorem oneDocument_reset_pwd (htarget : con.request_.target = ascii "/reset_pwd") :
    Returning record (parsing reader (reset_pwd cfg) con)
      (fun trace _ => OneDocument cfg reader con.request_ trace) [] := by
  apply oneDocument_posting
  · intro sofar
    exact returning_gate_bind.mpr (returning_respond.mpr (adds_errorRoot (by decide)))
  · intro src_root sofar
    rw [htarget]
    exact returning_gate_bind.mpr (adds_reset_pwd src_root)

/-- Where the passwords differ, a document has been written before the verification step writes its
own. -/
theorem oneDocument_user_register (htarget : con.request_.target = ascii "/user_register") :
    Returning record (parsing reader (user_register cfg) con)
      (fun trace _ => OneDocument cfg reader con.request_ trace ↔
        ¬ PasswordsDiffer reader con.request_) [] := by
  refine returning_readBody_bind.mpr fun result hresult => ?_
  cases result with
  | none =>
      refine returning_gate_bind.mpr (returning_respond.mpr (iff_of_true ?_ ?_))
      · exact oneDocument_of_adds (P := fun _ => False) (adds_errorRoot (by decide))
          fun _ => False.elim
      · rintro ⟨-, src_root, pwd, confirm, hparsed, -⟩
        rw [hresult] at hparsed
        exact absurd hparsed (by simp)
  | some src_root =>
      refine returning_gate_bind.mpr (returning_mono (fun trace _ hadds => ?_)
        (adds_user_register src_root))
      obtain ⟨pwd, confirm, hpwd, hconfirm, hadds⟩ := hadds
      by_cases heq : pwd = confirm
      · rw [if_pos heq] at hadds
        refine iff_of_true (oneDocument_of_adds hadds fun calls hcalls => ?_) ?_
        · exact ⟨src_root, hresult, htarget ▸ hcalls⟩
        · rintro ⟨-, other, pwd', confirm', hparsed, hpwd', hconfirm', hne⟩
          rw [hresult, Except.ok.injEq, Option.some.injEq] at hparsed
          subst hparsed
          rw [hpwd, Except.ok.injEq] at hpwd'
          rw [hconfirm, Except.ok.injEq] at hconfirm'
          exact hne (hpwd' ▸ hconfirm' ▸ heq)
      · rw [if_neg heq] at hadds
        refine iff_of_false (not_oneDocument_of_adds hadds) (not_not_intro ?_)
        exact ⟨htarget, src_root, pwd, confirm, hresult, hpwd, hconfirm, heq⟩

/-! ### Every POST request -/

/-- **When the body is one document.** Whatever the calls come to, the body that a handler leaves when
it returns is one object with one error code, which is 0 only if everything succeeded, exactly if the
request is not a registration with two passwords. -/
theorem oneDocument_iff {cfg : ConfigMgr} {reader : JsonReader} {con : HttpConnection}
    {handler : HttpHandler} {trace : HttpTrace}
    (hhandler : (post_handlers_ cfg reader).lookup con.request_.target = some handler)
    (htrace : (handler con).run.Performs trace (.ok ())) :
    OneDocument cfg reader con.request_ trace ↔ ¬ PasswordsDiffer reader con.request_ := by
  have hother (htarget : con.request_.target ≠ ascii "/user_register")
      (hone : Returning record (handler con)
        (fun trace _ => OneDocument cfg reader con.request_ trace) []) :
      OneDocument cfg reader con.request_ trace ↔ ¬ PasswordsDiffer reader con.request_ := by
    have hdocument := returning_iff_performs.mp hone trace () htrace
    rw [foldl_record, List.nil_append] at hdocument
    exact iff_of_true hdocument fun hdiffer => htarget hdiffer.1
  obtain ⟨before, after, hlist, -⟩ := List.lookup_eq_some_iff.mp hhandler
  have hmem : (con.request_.target, handler) ∈ post_handlers_ cfg reader :=
    hlist ▸ List.mem_append_right _ List.mem_cons_self
  simp only [post_handlers_, List.mem_cons, List.not_mem_nil, or_false, Prod.mk.injEq] at hmem
  rcases hmem with ⟨htarget, rfl⟩ | ⟨htarget, rfl⟩ | ⟨htarget, rfl⟩ | ⟨htarget, rfl⟩
  · exact hother (htarget ▸ by decide) (oneDocument_get_verifycode htarget)
  · have hdocument := returning_iff_performs.mp (oneDocument_user_register htarget) trace () htrace
    rwa [foldl_record, List.nil_append] at hdocument
  · exact hother (htarget ▸ by decide) (oneDocument_reset_pwd htarget)
  · exact hother (htarget ▸ by decide) (oneDocument_user_login htarget)

def emailRoot : JsonValue := .object [(ascii "email", .string (ascii "e"))]

/-- The code is sent, and the reply is one document with code 0. -/
theorem oneDocument_get_verifycode_sent :
    ∃ handler, ∃ trace : HttpTrace,
      (post_handlers_ ⟨[]⟩ fun _ => .ok (some emailRoot)).lookup (ascii "/get_verifycode")
        = some handler ∧
      (handler (new ⟨.post, ascii "/get_verifycode", 11, []⟩)).run.Performs trace (.ok ()) ∧
      trace.body = [.inr (.object [(ascii "error", .int 0), (ascii "email", .string (ascii "e"))])] ∧
      OneDocument ⟨[]⟩ (fun _ => .ok (some emailRoot)) ⟨.post, ascii "/get_verifycode", 11, []⟩
        trace := by
  have hpath : (get_verifycode (fun _ => .ok (some emailRoot))
      (new ⟨.post, ascii "/get_verifycode", 11, []⟩)).run.Performs
      [⟨.set .content_type "text/json", ()⟩, ⟨.GetVerifyCode (ascii "e"), ⟨0, [], []⟩⟩,
        ⟨.gate (.respond (.object [(ascii "error", .int 0), (ascii "email", .string (ascii "e"))])), ()⟩]
      (.ok ()) := .call (.call (.call (.ret _)))
  refine ⟨_, _, rfl, hpath, rfl, ?_⟩
  have hiff := @oneDocument_iff ⟨[]⟩ (fun _ => .ok (some emailRoot))
    (new ⟨.post, ascii "/get_verifycode", 11, []⟩) _ _ rfl hpath
  exact hiff.mpr fun hdiffer => absurd hdiffer.1 (by decide)

/-- The registration goes on after the reply has said that the passwords differ, and succeeds. -/
theorem user_register_two_documents :
    ∃ handler, ∃ trace : HttpTrace,
      (post_handlers_ ⟨[]⟩ fun body => .ok (GateServer.parseTwoPasswords body)).lookup
        (ascii "/user_register") = some handler ∧
      (handler (new ⟨.post, ascii "/user_register", 11, GateServer.twoPasswords⟩)).run.Performs trace
        (.ok ()) ∧
      ¬ OneDocument ⟨[]⟩ (fun body => .ok (GateServer.parseTwoPasswords body))
        ⟨.post, ascii "/user_register", 11, GateServer.twoPasswords⟩ trace := by
  have hpath : (parsing (fun body => .ok (GateServer.parseTwoPasswords body)) (user_register ⟨[]⟩)
      (new ⟨.post, ascii "/user_register", 11, GateServer.twoPasswords⟩)).run.Performs
      [⟨.set .content_type "text/json", ()⟩, ⟨.gate (.respond (errorRoot .PasswdErr)), ()⟩,
        ⟨.gate (.RedisGet (ascii "e")), (true, ascii "123456")⟩,
        ⟨.gate (.RegUser (ascii "u") (ascii "e") (ascii "p")), (1 : Int)⟩,
        ⟨.gate (.respond (.object [(ascii "error", .int 0), (ascii "uid", .int 1),
          (ascii "email", .string (ascii "e")), (ascii "user", .string (ascii "u")),
          (ascii "passwd", .string (ascii "p")), (ascii "confirm", .string (ascii "q")),
          (ascii "verifycode", .string (ascii "123456"))])), ()⟩]
      (.ok ()) := .call (.call (.call (.call (.call (.ret _)))))
  refine ⟨_, _, rfl, hpath, ?_⟩
  rintro ⟨members, code, hbody, -⟩
  have hlength : 2 = 1 := congrArg List.length hbody
  exact absurd hlength (by decide)

end LogicSystem

end QuickChat
