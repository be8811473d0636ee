import QuickChat.Lib.Machine
import QuickChat.Proof.HttpReply

/-!
# What comes before a call

`HandleReq` calls `RegUser` only for a `/user_register` request, and after Redis has given it the code
that the request submits for its email. It calls `UpdatePwd` only for a `/reset_pwd` request, after the
same and after `CheckEmail` has said yes; and `GetChatServer` only for a `/user_login` request, after
`CheckPwd` has accepted its name and password, and for the uid that it gave. A document with the error 0
is written only after the call that does what the request asks for has been answered so. So it is on
every path, up to every point of it, whatever the calls are answered.
-/

namespace QuickChat

open Text

def JsonReader.document (reader : JsonReader) (body : Bytes) : Option JsonValue :=
  (reader body).toOption.join

theorem JsonReader.document_of_ok {reader : JsonReader} {body : Bytes} {src_root : Option JsonValue}
    (hreader : reader body = .ok src_root) : reader.document body = src_root := by
  rw [JsonReader.document, hreader]
  cases src_root <;> rfl

namespace HttpConnection

open Program LogicSystem

def Verified (cfg : ConfigMgr) (past : HttpTrace) (email verifycode : Bytes) : Prop :=
  ⟨.gate (.RedisGet (cfg.value "Redis" "verify_prefix" ++ email)), (true, verifycode)⟩ ∈ past

def PostsTo (request : HttpRequest) (target : String) : Prop :=
  request.method = .post ∧ request.target = ascii target

/-- What has been called, and answered, before a document with the error 0 is written. -/
inductive Granted (reader : JsonReader) (request : HttpRequest) (past : HttpTrace) (root : JsonValue) :
    Prop where
  | code {src_root : JsonValue} {email : Bytes} {rsp : GetVerifyRsp}
      (hposts : PostsTo request "/get_verifycode")
      (hdocument : reader.document request.body = some src_root)
      (hemail : src_root.field "email" = .ok email)
      (hcalled : ⟨.GetVerifyCode email, rsp⟩ ∈ past) (herror : rsp.error = 0) :
      Granted reader request past root
  | registered {submitted : GateRequest} {confirm verifycode : Bytes} {uid : Int}
      (hposts : PostsTo request "/user_register")
      (hsubmitted : submitted.SubmittedWith reader.document request.body confirm verifycode)
      (hcalled : ⟨.gate (.RegUser submitted.user submitted.email submitted.passwd), uid⟩ ∈ past)
      (huid : ¬ (uid = 0 ∨ uid = -1)) (hroot : root.member "uid" = .ok (.int uid)) :
      Granted reader request past root
  | reset {submitted : GateRequest} {verifycode : Bytes} (hposts : PostsTo request "/reset_pwd")
      (hsubmitted : submitted.Submitted reader.document request.body verifycode)
      (hcalled : ⟨.gate (.UpdatePwd submitted.user submitted.passwd), true⟩ ∈ past) :
      Granted reader request past root
  | login {src_root : JsonValue} {name pwd : Bytes} {userInfo : UserInfo} {reply : GetChatServerRsp}
      (hposts : PostsTo request "/user_login")
      (hdocument : reader.document request.body = some src_root)
      (hname : src_root.field "user" = .ok name) (hpwd : src_root.field "passwd" = .ok pwd)
      (hchecked : ⟨.CheckPwd name pwd, some userInfo⟩ ∈ past)
      (hcalled : ⟨.GetChatServer userInfo.uid, reply⟩ ∈ past) (herror : reply.error = 0)
      (hroot : root.member "token" = .ok (.string reply.token)) : Granted reader request past root

/-- What has been called, and answered, before the call is made. -/
def Due (cfg : ConfigMgr) (reader : JsonReader) (request : HttpRequest) (past : HttpTrace) :
    HttpCall → Prop
  | .gate (.RegUser name email pwd) =>
      PostsTo request "/user_register" ∧ ∃ confirm verifycode,
        GateRequest.SubmittedWith ⟨email, name, pwd⟩ reader.document request.body confirm verifycode ∧
        Verified cfg past email verifycode
  | .gate (.UpdatePwd name pwd) =>
      PostsTo request "/reset_pwd" ∧ ∃ email verifycode,
        GateRequest.Submitted ⟨email, name, pwd⟩ reader.document request.body verifycode ∧
        Verified cfg past email verifycode ∧ ⟨.gate (.CheckEmail name email), true⟩ ∈ past
  | .GetChatServer uid =>
      PostsTo request "/user_login" ∧ ∃ src_root name pwd userInfo,
        reader.document request.body = some src_root ∧ src_root.field "user" = .ok name ∧
        src_root.field "passwd" = .ok pwd ∧ ⟨.CheckPwd name pwd, some userInfo⟩ ∈ past ∧
        userInfo.uid = uid
  | .gate (.respond root) => root.error? = some 0 → Granted reader request past root
  | _ => True

abbrev InOrder (cfg : ConfigMgr) (reader : JsonReader) (request : HttpRequest) (trace : HttpTrace) :
    Prop :=
  Machine.Preceded (fun past entry => Due cfg reader request past entry.1) trace

variable {α β : Type} {cfg : ConfigMgr} {reader : JsonReader} {request : HttpRequest}
  {con : HttpConnection} {trace : HttpTrace}

/-- From a trace in order, the program goes on in order. -/
abbrev GoesInOrder (cfg : ConfigMgr) (reader : JsonReader) (request : HttpRequest) (trace : HttpTrace)
    (program : HttpTry α) : Prop :=
  program.run.wp record (fun _ _ => True) (InOrder cfg reader request) (fun _ _ => True) trace

/-! ### Calls that may come at any time -/

def Free : HttpCall → Bool
  | .gate (.RegUser _ _ _) => false
  | .gate (.UpdatePwd _ _) => false
  | .gate (.respond _) => false
  | .GetChatServer _ => false
  | _ => true

theorem due_of_free {effect : HttpCall} (hfree : Free effect = true) :
    Due cfg reader request trace effect := by
  cases effect with
  | gate call =>
      cases call with
      | RegUser name email pwd => exact absurd hfree Bool.false_ne_true
      | UpdatePwd name pwd => exact absurd hfree Bool.false_ne_true
      | respond root => exact absurd hfree Bool.false_ne_true
      | _ => exact trivial
  | GetChatServer uid => exact absurd hfree Bool.false_ne_true
  | _ => exact trivial

theorem wp_of_free {program : HttpProgram α} (havoids : program.Avoids (Free · = false))
    (htrace : InOrder cfg reader request trace) :
    program.wp record (fun _ _ => True) (InOrder cfg reader request) (fun _ _ => True) trace := by
  induction program generalizing trace with
  | ret value => exact ⟨htrace, trivial⟩
  | call effect next ih =>
      refine ⟨htrace, fun answer _ => ih answer (havoids.2 answer) ?_⟩
      exact Machine.preceded_concat.mpr ⟨htrace, due_of_free (eq_true_of_ne_false havoids.1)⟩

theorem goesInOrder_bind {first : HttpTry α} {second : α → HttpTry β}
    (hfirst : GoesInOrder cfg reader request trace first)
    (hsecond : ∀ value, (second value).run.Avoids (Free · = false)) :
    GoesInOrder cfg reader request trace (first >>= second) := by
  refine wp_try_bind.mpr (wp_mono (fun after result hafter _ => ?_) hfirst)
  cases result with
  | error e => exact ⟨hafter, trivial⟩
  | ok value => exact wp_of_free (hsecond value) hafter

theorem free_finish (success : Bool) (notFound : String) :
    (finish success notFound).run.Avoids (Free · = false) := by
  have hcall {effect : HttpCall} (hfree : Free effect = true) :
      (call effect).run.Avoids (Free · = false) := ⟨by simp [hfree], fun _ => trivial⟩
  cases success with
  | true =>
      refine avoids_bind_raising (hcall rfl) fun _ => ?_
      refine avoids_bind_raising (hcall rfl) fun _ => ?_
      exact hcall rfl
  | false =>
      refine avoids_bind_raising (hcall rfl) fun _ => ?_
      refine avoids_bind_raising (hcall rfl) fun _ => ?_
      refine avoids_bind_raising (hcall rfl) fun _ => ?_
      exact hcall rfl

/-! ### The handlers -/

section Gate

abbrev GateInOrder (cfg : ConfigMgr) (reader : JsonReader) (request : HttpRequest) (trace : HttpTrace)
    (handler : GateHandler α) : Prop :=
  handler.run.wp recordGate (fun _ _ => True) (InOrder cfg reader request) (fun _ _ => True) trace

/-- The two handlers that only make calls of their own kind are followed over those. -/
theorem goesInOrder_gate {handler : GateHandler α}
    (hhandler : GateInOrder cfg reader request trace handler) :
    GoesInOrder cfg reader request trace (gate handler) := by
  have hinterp {program : GateProgram (Except LogicError α)} {trace : HttpTrace}
      (hprogram : program.wp recordGate (fun _ _ => True) (InOrder cfg reader request) (fun _ _ => True)
        trace) :
      (program.interp performGate).wp record (fun _ _ => True) (InOrder cfg reader request)
        (fun _ _ => True) trace := by
    induction program generalizing trace with
    | ret value => exact hprogram
    | call effect next ih => exact ⟨hprogram.1, fun answer _ => ih answer (hprogram.2 answer trivial)⟩
  rw [GoesInOrder, gate, ExceptT.run_mk, wp_bind]
  exact wp_mono (fun after result hafter _ => ⟨hafter, trivial⟩) (hinterp hhandler)

theorem gateInOrder_call {call : GateCall} {second : call.Answer → GateHandler β}
    (htrace : InOrder cfg reader request trace) (hdue : Due cfg reader request trace (.gate call))
    (hsecond : ∀ answer, InOrder cfg reader request (recordGate trace call answer) →
      GateInOrder cfg reader request (recordGate trace call answer) (second answer)) :
    GateInOrder cfg reader request trace (ExceptT.lift (Program.perform call) >>= second) := by
  refine wp_lift_bind.mpr ⟨htrace, fun answer _ => ?_⟩
  have hafter : InOrder cfg reader request (recordGate trace call answer) :=
    Machine.preceded_concat.mpr ⟨htrace, hdue⟩
  exact ⟨hafter, hsecond answer hafter⟩

theorem gateInOrder_respond {root : JsonValue} {second : Unit → GateHandler β}
    (htrace : InOrder cfg reader request trace)
    (hgranted : root.error? = some 0 → Granted reader request trace root)
    (hsecond : ∀ after, InOrder cfg reader request after →
      GateInOrder cfg reader request after (second ())) :
    GateInOrder cfg reader request trace (respond root >>= second) :=
  gateInOrder_call htrace hgranted fun _ hafter => hsecond _ hafter

/-- The document of an error needs nothing before it. -/
theorem granted_errorRoot {code : ErrorCodes} (hcode : code ≠ .Success)
    (herror : (errorRoot code).error? = some 0) : Granted reader request trace (errorRoot code) := by
  rw [GateServer.errorRoot_error, Option.some.injEq] at herror
  exact absurd (ErrorCodes.value_injective (herror.trans rfl)) hcode

theorem gateInOrder_pure (value : α) (htrace : InOrder cfg reader request trace) :
    GateInOrder cfg reader request trace (pure value) := ⟨htrace, trivial⟩

theorem gateInOrder_rejected {code : ErrorCodes} (hcode : code ≠ .Success)
    (htrace : InOrder cfg reader request trace) :
    GateInOrder cfg reader request trace (respond (errorRoot code) >>= fun _ => pure true) :=
  gateInOrder_respond htrace (granted_errorRoot hcode) fun _ hafter => gateInOrder_pure true hafter

theorem gateInOrder_field {src_root : JsonValue} {key : String} {second : Bytes → GateHandler β}
    (htrace : InOrder cfg reader request trace)
    (hsecond : ∀ value, src_root.field key = .ok value →
      GateInOrder cfg reader request trace (second value)) :
    GateInOrder cfg reader request trace (field src_root key >>= second) := by
  refine wp_raising_bind.mpr ?_
  cases hfield : src_root.field key with
  | error e => exact ⟨htrace, trivial⟩
  | ok value => exact hsecond value hfield

/-- Behind the verification step the code has been found, with the email that was submitted. -/
theorem gateInOrder_verification {src_root : JsonValue} {email : Bytes}
    {next : Bytes → GateHandler Bool} (htrace : InOrder cfg reader request trace)
    (hnext : ∀ verifycode after, src_root.field "verifycode" = .ok verifycode →
      InOrder cfg reader request after → Verified cfg after email verifycode →
      GateInOrder cfg reader request after (next verifycode)) :
    GateInOrder cfg reader request trace (verification cfg src_root email next) := by
  refine gateInOrder_call htrace ?_ ?_
  · exact trivial
  rintro ⟨b_get_verify, verify_code⟩ hafter
  cases b_get_verify with
  | false =>
      exact gateInOrder_rejected (by decide) hafter
  | true =>
      simp only [not_true_eq_false, if_false]
      apply gateInOrder_field hafter
      intro verifycode hfield
      by_cases hcode : verify_code = verifycode
      · subst hcode
        rw [if_neg (not_not_intro rfl)]
        refine hnext verify_code _ hfield hafter ?_
        exact List.mem_concat_self
      · rw [if_pos hcode]
        exact gateInOrder_rejected (by decide) hafter

/-- `RegUser` comes behind the check of the code, and the document with the error 0 behind
`RegUser`. -/
theorem gateInOrder_user_register {body : Bytes} {src_root : JsonValue}
    (hposts : PostsTo request "/user_register")
    (hdocument : reader.document request.body = some src_root)
    (htrace : InOrder cfg reader request trace) :
    GateInOrder cfg reader request trace (user_register cfg (fun _ => some src_root) body) := by
  apply gateInOrder_field htrace
  intro email hemail
  apply gateInOrder_field htrace
  intro name hname
  apply gateInOrder_field htrace
  intro pwd hpwd
  apply gateInOrder_field htrace
  intro confirm hconfirm
  have hverified {after : HttpTrace} (hafter : InOrder cfg reader request after) :
      GateInOrder cfg reader request after
        (verification cfg src_root email (user_register_verified email name pwd confirm)) := by
    apply gateInOrder_verification hafter
    intro verifycode after hcode hafter hverified
    have hsubmitted : GateRequest.SubmittedWith ⟨email, name, pwd⟩ reader.document request.body confirm
        verifycode := ⟨src_root, hdocument, ⟨hemail, hname, hpwd⟩, hconfirm, hcode⟩
    refine gateInOrder_call hafter ⟨hposts, confirm, verifycode, hsubmitted, hverified⟩ ?_
    intro (uid : Int) hcalled
    by_cases huid : uid = 0 ∨ uid = -1
    · rw [if_pos huid]
      exact gateInOrder_rejected (by decide) hcalled
    · rw [if_neg huid]
      refine gateInOrder_respond hcalled (fun _ => ?_) fun after hafter => gateInOrder_pure true hafter
      exact .registered hposts hsubmitted List.mem_concat_self huid rfl
  by_cases hsame : pwd = confirm
  · rw [if_neg (not_not_intro hsame)]
    exact hverified htrace
  · rw [if_pos hsame]
    exact gateInOrder_respond htrace (granted_errorRoot (by decide)) fun after hafter => hverified hafter

/-- `CheckEmail` comes behind the check of the code, and `UpdatePwd` behind a `CheckEmail` that said
yes. -/
theorem gateInOrder_reset_pwd {body : Bytes} {src_root : JsonValue}
    (hposts : PostsTo request "/reset_pwd")
    (hdocument : reader.document request.body = some src_root)
    (htrace : InOrder cfg reader request trace) :
    GateInOrder cfg reader request trace (reset_pwd cfg (fun _ => some src_root) body) := by
  apply gateInOrder_field htrace
  intro email hemail
  apply gateInOrder_field htrace
  intro name hname
  apply gateInOrder_field htrace
  intro pwd hpwd
  apply gateInOrder_verification htrace
  intro verifycode after hcode hafter hverified
  have hsubmitted : GateRequest.Submitted ⟨email, name, pwd⟩ reader.document request.body verifycode :=
    ⟨src_root, hdocument, ⟨hemail, hname, hpwd⟩, hcode⟩
  refine gateInOrder_call hafter ?_ ?_
  · exact trivial
  intro (email_valid : Bool) hchecked
  cases email_valid with
  | false =>
      exact gateInOrder_rejected (by decide) hchecked
  | true =>
      refine gateInOrder_call hchecked ⟨hposts, email, verifycode, hsubmitted, ?_, ?_⟩ ?_
      · exact List.mem_append_left _ hverified
      · exact List.mem_concat_self
      · intro (b_up : Bool) hupdated
        cases b_up with
        | false =>
            exact gateInOrder_rejected (by decide) hupdated
        | true =>
            refine gateInOrder_respond hupdated (fun _ => ?_) fun after hafter =>
              gateInOrder_pure true hafter
            exact .reset hposts hsubmitted List.mem_concat_self

end Gate

section Http

theorem goesInOrder_call {effect : HttpCall} {second : effect.Answer → HttpTry β}
    (htrace : InOrder cfg reader request trace) (hdue : Due cfg reader request trace effect)
    (hsecond : ∀ answer, InOrder cfg reader request (record trace effect answer) →
      GoesInOrder cfg reader request (record trace effect answer) (second answer)) :
    GoesInOrder cfg reader request trace (call effect >>= second) := by
  refine wp_lift_bind.mpr ⟨htrace, fun answer _ => ?_⟩
  have hafter : InOrder cfg reader request (record trace effect answer) :=
    Machine.preceded_concat.mpr ⟨htrace, hdue⟩
  exact ⟨hafter, hsecond answer hafter⟩

theorem goesInOrder_raising {ε : Type} {toError : ε → HttpError} {result : Except ε α}
    {second : α → HttpTry β} (htrace : InOrder cfg reader request trace)
    (hsecond : ∀ value, result = .ok value → GoesInOrder cfg reader request trace (second value)) :
    GoesInOrder cfg reader request trace (raising toError result >>= second) := by
  refine wp_raising_bind.mpr ?_
  cases result with
  | error e => exact ⟨htrace, trivial⟩
  | ok value => exact hsecond value rfl

theorem goesInOrder_respond {root : JsonValue} (htrace : InOrder cfg reader request trace)
    (hgranted : root.error? = some 0 → Granted reader request trace root) :
    GoesInOrder cfg reader request trace (gate (respond root)) :=
  goesInOrder_gate (gateInOrder_respond htrace hgranted fun _ hafter => gateInOrder_pure () hafter)

theorem goesInOrder_readBody {second : Option JsonValue → HttpTry β}
    (htrace : InOrder cfg reader request trace)
    (hsecond : ∀ src_root after, reader con.request_.body = .ok src_root →
      InOrder cfg reader request after → GoesInOrder cfg reader request after (second src_root)) :
    GoesInOrder cfg reader request trace (readBody reader con >>= second) := by
  refine wp_try_bind.mpr (wp_lift_bind.mpr ⟨htrace, fun answer _ => ?_⟩)
  have hafter : InOrder cfg reader request (record trace (.set .content_type "text/json") answer) :=
    Machine.preceded_concat.mpr ⟨htrace, trivial⟩
  cases hreader : reader con.request_.body with
  | error e => exact ⟨hafter, hafter, hafter, trivial⟩
  | ok src_root => exact ⟨hafter, hafter, hsecond src_root _ hreader hafter⟩

theorem goesInOrder_get_verifycode (hcon : con.request_ = request)
    (hposts : PostsTo request "/get_verifycode") (htrace : InOrder cfg reader request trace) :
    GoesInOrder cfg reader request trace (get_verifycode reader con) := by
  apply goesInOrder_readBody htrace
  rintro (_ | src_root) after hreader hafter
  · exact goesInOrder_respond hafter (granted_errorRoot (by decide))
  · have hdocument : reader.document request.body = some src_root :=
      JsonReader.document_of_ok (hcon ▸ hreader)
    apply goesInOrder_raising hafter
    intro email hemail
    refine goesInOrder_call hafter ?_ ?_
    · exact trivial
    intro (rsp : GetVerifyRsp) hcalled
    apply goesInOrder_raising hcalled
    intro member hmember
    refine goesInOrder_respond hcalled fun herror => ?_
    exact .code hposts hdocument hemail List.mem_concat_self
      (Option.some.inj herror)

/-- The token is asked for behind a `CheckPwd` that gave the uid. -/
theorem goesInOrder_user_login (hcon : con.request_ = request)
    (hposts : PostsTo request "/user_login") (htrace : InOrder cfg reader request trace) :
    GoesInOrder cfg reader request trace (user_login reader con) := by
  apply goesInOrder_readBody htrace
  rintro (_ | src_root) after hreader hafter
  · exact goesInOrder_respond hafter (granted_errorRoot (by decide))
  · have hdocument : reader.document request.body = some src_root :=
      JsonReader.document_of_ok (hcon ▸ hreader)
    apply goesInOrder_raising hafter
    intro name hname
    apply goesInOrder_raising hafter
    intro pwd hpwd
    refine goesInOrder_call hafter ?_ ?_
    · exact trivial
    intro (userInfo : Option UserInfo) hchecked
    cases userInfo with
    | none => exact goesInOrder_respond hchecked (granted_errorRoot (by decide))
    | some userInfo =>
        have haccepted : ⟨.CheckPwd name pwd, some userInfo⟩
            ∈ record after (.CheckPwd name pwd) (some userInfo) :=
          List.mem_concat_self
        refine goesInOrder_call hchecked
          ⟨hposts, src_root, name, pwd, userInfo, hdocument, hname, hpwd, haccepted, rfl⟩ ?_
        intro (reply : GetChatServerRsp) hreplied
        by_cases hreply : reply.error = 0
        · rw [if_neg (not_not_intro hreply)]
          refine goesInOrder_respond hreplied fun _ => ?_
          exact .login hposts hdocument hname hpwd (List.mem_append_left _ haccepted)
            List.mem_concat_self hreply rfl
        · rw [if_pos hreply]
          exact goesInOrder_respond hreplied (granted_errorRoot (by decide))

theorem goesInOrder_parsing {handler : (Bytes → Option JsonValue) → Bytes → GateHandler Bool}
    (hcon : con.request_ = request) (htrace : InOrder cfg reader request trace)
    (hnone : ∀ after, InOrder cfg reader request after →
      GateInOrder cfg reader request after (handler (fun _ => none) con.request_.body))
    (hsome : ∀ src_root after, reader.document request.body = some src_root →
      InOrder cfg reader request after →
      GateInOrder cfg reader request after (handler (fun _ => some src_root) con.request_.body)) :
    GoesInOrder cfg reader request trace (parsing reader handler con) := by
  apply goesInOrder_readBody htrace
  intro src_root after hreader hafter
  refine goesInOrder_bind (goesInOrder_gate ?_) fun _ => trivial
  cases src_root with
  | none => exact hnone after hafter
  | some src_root =>
      exact hsome src_root after (JsonReader.document_of_ok (hcon ▸ hreader)) hafter

/-- Each of the registered handlers keeps to the order. -/
theorem goesInOrder_handler {handler : HttpHandler} (hcon : con.request_ = request)
    (hmethod : request.method = .post)
    (hhandler : (post_handlers_ cfg reader).lookup request.target = some handler)
    (htrace : InOrder cfg reader request trace) :
    GoesInOrder cfg reader request trace (handler con) := by
  obtain ⟨before, after, hlist, -⟩ := List.lookup_eq_some_iff.mp hhandler
  have hmem : (request.target, handler) ∈ post_handlers_ cfg reader :=
    hlist ▸ List.mem_append_right _ List.mem_cons_self
  simp only [post_handlers_, List.mem_cons, List.not_mem_nil, or_false, Prod.mk.injEq] at hmem
  rcases hmem with ⟨htarget, rfl⟩ | ⟨htarget, rfl⟩ | ⟨htarget, rfl⟩ | ⟨htarget, rfl⟩
  · exact goesInOrder_get_verifycode hcon ⟨hmethod, htarget⟩ htrace
  · refine goesInOrder_parsing hcon htrace
      (fun after hafter => gateInOrder_rejected (by decide) hafter) ?_
    intro src_root after hdocument hafter
    exact gateInOrder_user_register ⟨hmethod, htarget⟩ hdocument hafter
  · refine goesInOrder_parsing hcon htrace
      (fun after hafter => gateInOrder_rejected (by decide) hafter) ?_
    intro src_root after hdocument hafter
    exact gateInOrder_reset_pwd ⟨hmethod, htarget⟩ hdocument hafter
  · exact goesInOrder_user_login hcon ⟨hmethod, htarget⟩ htrace

theorem free_HandleGet (path : Bytes) : (HandleGet path con).run.Avoids (Free · = false) := by
  have hwrite (text : Bytes) : (write text).run.Avoids (Free · = false) :=
    ⟨by simp [Free], fun _ => trivial⟩
  have hparams (i : Nat) (params : List (Bytes × Bytes)) :
      (writeParams i params).run.Avoids (Free · = false) := by
    induction params generalizing i with
    | nil => exact trivial
    | cons elem rest ih =>
        refine avoids_bind_raising (hwrite _) fun _ => ?_
        exact avoids_bind_raising (hwrite _) fun _ => ih (i + 1)
  rw [HandleGet, handle, get_handlers_, List.lookup_cons]
  cases path == ascii "/get_test" with
  | false => exact trivial
  | true =>
      refine avoids_bind_raising ?_ fun _ => trivial
      refine avoids_bind_raising (hwrite _) fun _ => ?_
      exact avoids_bind_raising ⟨by simp [Free], fun _ => trivial⟩ fun _ => hparams 1 _

/-- **In order.** On every path of `HandleReq` and up to every point of it, each call is made after
those that it is due to. -/
theorem goesInOrder_HandleReq (cfg : ConfigMgr) (reader : JsonReader) (request : HttpRequest) :
    GoesInOrder cfg reader request [] (HandleReq cfg reader (new request)) := by
  refine goesInOrder_call Machine.preceded_nil trivial fun _ htrace => ?_
  refine goesInOrder_call htrace trivial fun _ htrace => ?_
  rw [show (new request).request_ = request from rfl]
  cases hmethod : request.method with
  | get =>
      apply goesInOrder_raising htrace
      intro con _
      apply goesInOrder_bind (wp_of_free (free_HandleGet _) htrace)
      exact fun success => free_finish success _
  | post =>
      refine goesInOrder_bind ?_ fun success => free_finish success _
      rw [HandlePost, handle]
      cases hhandler : (post_handlers_ cfg reader).lookup request.target with
      | none => exact ⟨htrace, trivial⟩
      | some handler =>
          exact goesInOrder_bind (goesInOrder_handler rfl hmethod hhandler htrace) fun _ => trivial
  | other name => exact ⟨htrace, trivial⟩

end Http

end HttpConnection

end QuickChat
