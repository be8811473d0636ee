import QuickChat.Gate.HttpResponse
import QuickChat.Proof.Documents

/-!
# What is written for a request

When `HandleReq` returns, the response to a GET or POST request has been written, once and as it
stays: with the version of the request, not kept alive, and either 404 with a line of text, or 200
with what the handler of the path has written. For `/get_test` that is a line and two texts for each
parameter, in whatever order the map is iterated, and for the targets of POST it is one document, or
two where the passwords of a registration differ. A request with another method is not written
anything for.
-/

namespace QuickChat

open Text

namespace HttpExchange

def part : Bytes ⊕ JsonValue → BodyPart
  | .inl text => .text text
  | .inr root => .document root

def adding (exchange : HttpExchange) (parts : List BodyPart) : HttpExchange :=
  { exchange with
    response_ := { exchange.response_ with body := exchange.response_.body ++ parts } }

theorem adding_nil (exchange : HttpExchange) : exchange.adding [] = exchange := by
  rw [adding, List.append_nil]

theorem adding_adding (exchange : HttpExchange) (first second : List BodyPart) :
    (exchange.adding first).adding second = exchange.adding (first ++ second) := by
  rw [adding, adding, adding, List.append_assoc]

end HttpExchange

/-! ### The replies -/

def HttpRequest.okReply (request : HttpRequest) (content_type : Option String)
    (body : List BodyPart) : HttpResponse :=
  ⟨request.version, false, .ok, content_type, some "GateServer", body⟩

def HttpRequest.notFoundReply (request : HttpRequest) (text : String) : HttpResponse :=
  ⟨request.version, false, .not_found, some "text/plain", none, [.text (ascii text)]⟩

/-- What `/get_test` says of the parameters, in this order. -/
def paramParts (params : List (Bytes × Bytes)) : List BodyPart :=
  .text (ascii "receieve get_test req\n") :: (params.zipIdx 1).flatMap fun (elem, i) =>
    [.text (ascii "param" ++ to_string i ++ ascii "key is" ++ elem.1),
      .text (ascii ", value is " ++ elem.2 ++ ascii "\n")]

/-- The documents of a POST request: one, or the one that says so and another where the passwords
differ. -/
structure Documents (reader : JsonReader) (request : HttpRequest) (roots : List JsonValue) : Prop where
  one : ¬ LogicSystem.PasswordsDiffer reader request → ∃ root, roots = [root]
  two : LogicSystem.PasswordsDiffer reader request →
    ∃ root, roots = [LogicSystem.errorRoot .PasswdErr, root]

/-- The reply to a request that is handled, if there is one. -/
inductive Replies (cfg : ConfigMgr) (reader : JsonReader) (request : HttpRequest) :
    Option HttpResponse → Prop where
  | other {name : Bytes} (hmethod : request.method = .other name) : Replies cfg reader request none
  | get_test {con : HttpConnection} {order : List (Bytes × Bytes)} (hmethod : request.method = .get)
      (hparse : (HttpConnection.new request).PreParseGetParam = .ok con)
      (hurl : con.get_url_ = ascii "/get_test") (horder : order.Perm con.get_params_) :
      Replies cfg reader request (some (request.okReply none (paramParts order)))
  | noPage {con : HttpConnection} (hmethod : request.method = .get)
      (hparse : (HttpConnection.new request).PreParseGetParam = .ok con)
      (hurl : con.get_url_ ≠ ascii "/get_test") :
      Replies cfg reader request (some (request.notFoundReply "url not found \r\n"))
  | documents {handler : HttpHandler} {roots : List JsonValue} (hmethod : request.method = .post)
      (hhandler : (LogicSystem.post_handlers_ cfg reader).lookup request.target = some handler)
      (hroots : Documents reader request roots) :
      Replies cfg reader request
        (some (request.okReply (some "text/json") (roots.map BodyPart.document)))
  | noTarget (hmethod : request.method = .post)
      (hhandler : (LogicSystem.post_handlers_ cfg reader).lookup request.target = none) :
      Replies cfg reader request (some (request.notFoundReply "url not found\r\n"))

namespace HttpConnection

open Program LogicSystem HttpExchange

variable {α : Type} {cfg : ConfigMgr} {reader : JsonReader} {con : HttpConnection}
  {request : HttpRequest} {exchange : HttpExchange}

theorem returning_raising_observe {ε : Type} {toError : ε → HttpError} {result : Except ε α}
    {Q : HttpExchange → α → Prop} (hvalue : ∀ value, result = .ok value → Q exchange value) :
    Returning observe (raising toError result) Q exchange := by
  refine returning_raising.mpr fun value hresult => hvalue value ?_
  cases result with
  | error e => exact absurd hresult (by simp [Except.mapError])
  | ok other => simpa [Except.mapError] using hresult

/-! ### The end of a request -/

theorem returning_found {notFound : String} {Q : HttpExchange → Unit → Prop} {reply : HttpResponse}
    (hreply : reply = { exchange.response_ with result := .ok, server := some "GateServer" })
    (hQ : Q ⟨reply, exchange.written ++ [reply]⟩ ()) :
    Returning observe (finish true notFound) Q exchange := by
  subst hreply
  apply returning_perform_bind.mpr
  intro _
  apply returning_perform_bind.mpr
  intro _
  apply returning_perform.mpr
  intro _
  exact hQ

theorem returning_notFound {notFound : String} {Q : HttpExchange → Unit → Prop} {reply : HttpResponse}
    (hreply : reply = { exchange.response_ with
      result := .not_found
      content_type := some "text/plain"
      body := exchange.response_.body ++ [.text (ascii notFound)] })
    (hQ : Q ⟨reply, exchange.written ++ [reply]⟩ ()) :
    Returning observe (finish false notFound) Q exchange := by
  subst hreply
  apply returning_perform_bind.mpr
  intro _
  apply returning_perform_bind.mpr
  intro _
  apply returning_perform_bind.mpr
  intro _
  apply returning_perform.mpr
  intro _
  exact hQ

/-! ### A page -/

theorem returning_writeParams (i : Nat) (params : List (Bytes × Bytes)) :
    Returning observe (writeParams i params)
      (fun after _ => after = exchange.adding ((params.zipIdx i).flatMap fun (elem, i) =>
        [.text (ascii "param" ++ to_string i ++ ascii "key is" ++ elem.1),
          .text (ascii ", value is " ++ elem.2 ++ ascii "\n")])) exchange := by
  induction params generalizing i exchange with
  | nil =>
      apply returning_pure.mpr
      rw [List.zipIdx_nil, List.flatMap_nil, adding_nil]
  | cons elem rest ih =>
      apply returning_perform_bind.mpr
      intro _
      apply returning_perform_bind.mpr
      intro _
      refine returning_mono (fun after _ hafter => ?_) (ih (i + 1))
      rw [hafter, List.zipIdx_cons, List.flatMap_cons, ← adding_adding]
      congr 1
      exact adding_adding exchange [_] [_]

/-- The page says what the parameters are, in the order of their iteration. -/
theorem returning_get_test :
    Returning observe (get_test con)
      (fun after _ => ∃ order, order.Perm con.get_params_ ∧
        after = exchange.adding (paramParts order)) exchange := by
  apply returning_perform_bind.mpr
  intro _
  apply returning_perform_bind.mpr
  rintro ⟨order, horder⟩
  refine returning_mono (fun after _ hafter => ?_) (returning_writeParams 1 order)
  refine ⟨order, horder, ?_⟩
  rw [hafter]
  exact adding_adding exchange [_] _

/-! ### Documents -/

def Quiet (effect : HttpCall) : Prop :=
  HttpTrace.isCall effect = true ∨ ∃ root, effect = .gate (.respond root)

theorem observe_quiet {effect : HttpCall} (hquiet : Quiet effect) (answer : effect.Answer) :
    exchange.observe effect answer
      = exchange.adding ((HttpTrace.piece ⟨effect, answer⟩).toList.map part) := by
  rcases hquiet with hcall | ⟨root, rfl⟩
  · cases effect with
    | gate call =>
        cases call with
        | respond root => exact absurd hcall (by simp [HttpTrace.isCall])
        | _ => exact (adding_nil exchange).symm
    | CheckPwd name pwd => exact (adding_nil exchange).symm
    | GetVerifyCode email => exact (adding_nil exchange).symm
    | GetChatServer uid => exact (adding_nil exchange).symm
    | _ => exact absurd hcall (by simp [HttpTrace.isCall])
  · rfl

/-- Quiet calls only add to the body. -/
theorem foldl_observe_quiet {trace : HttpTrace} (hquiet : ∀ entry ∈ trace, Quiet entry.1) :
    trace.foldl (fun exchange entry => exchange.observe entry.1 entry.2) exchange
      = exchange.adding (trace.body.map part) := by
  induction trace generalizing exchange with
  | nil => exact (adding_nil exchange).symm
  | cons entry trace ih =>
      obtain ⟨hentry, htrace⟩ := List.forall_mem_cons.mp hquiet
      rw [List.foldl_cons, ih htrace, observe_quiet hentry, adding_adding, ← List.map_append]
      have hbody : HttpTrace.body (entry :: trace)
          = (HttpTrace.piece entry).toList ++ HttpTrace.body trace := by
        rw [HttpTrace.body, List.filterMap_cons]
        cases HttpTrace.piece entry with
        | none => rfl
        | some piece => rfl
      rw [hbody]

theorem quiet_of_performs {program : HttpProgram α} {trace : HttpTrace} {value : α}
    (havoids : program.Avoids fun effect => ¬ Quiet effect) (htrace : program.Performs trace value) :
    ∀ entry ∈ trace, Quiet entry.1 := by
  induction htrace with
  | ret value => exact List.forall_mem_nil _
  | call _ ih =>
      obtain ⟨heffect, hnext⟩ := havoids
      exact List.forall_mem_cons.mpr ⟨not_not.mp heffect, ih (hnext _)⟩

theorem avoids_performGate {P : HttpCall → Prop} (program : GateProgram α)
    (hgate : ∀ call, ¬ P (.gate call)) : (program.interp performGate).Avoids P := by
  induction program with
  | ret value => exact trivial
  | call effect next ih => exact ⟨hgate effect, fun answer => ih answer⟩

theorem avoids_gate {P : HttpCall → Prop} (handler : GateHandler α) (hgate : ∀ call, ¬ P (.gate call)) :
    (gate handler).run.Avoids P :=
  Avoids.bind (avoids_performGate handler.run hgate) fun _ => trivial

theorem avoids_bind_raising {P : HttpCall → Prop} {β : Type} {first : HttpTry α}
    {second : α → HttpTry β}
    (hfirst : first.run.Avoids P) (hsecond : ∀ value, (second value).run.Avoids P) :
    (first >>= second).run.Avoids P := by
  rw [ExceptT.run_bind]
  refine hfirst.bind fun result => ?_
  cases result with
  | error e => exact trivial
  | ok value => exact hsecond value

theorem quiet_gate (call : GateCall) : Quiet (.gate call) := by
  cases call with
  | respond root => exact .inr ⟨root, rfl⟩
  | _ => exact .inl rfl

theorem quiet_of_gate (handler : GateHandler α) :
    (gate handler).run.Avoids fun effect => ¬ Quiet effect :=
  avoids_gate handler fun call => not_not_intro (quiet_gate call)

theorem quiet_get_verifycode_parsed (parsed : Option JsonValue) :
    (get_verifycode_parsed parsed).run.Avoids fun effect => ¬ Quiet effect := by
  cases parsed with
  | none => exact quiet_of_gate _
  | some src_root =>
      refine avoids_bind_raising trivial fun email => ?_
      refine avoids_bind_raising ⟨not_not_intro (.inl rfl), fun _ => trivial⟩ fun rsp => ?_
      refine avoids_bind_raising trivial fun member => ?_
      exact quiet_of_gate _

theorem quiet_user_login_parsed (parsed : Option JsonValue) :
    (user_login_parsed parsed).run.Avoids fun effect => ¬ Quiet effect := by
  cases parsed with
  | none => exact quiet_of_gate _
  | some src_root =>
      refine avoids_bind_raising trivial fun name => ?_
      refine avoids_bind_raising trivial fun pwd => ?_
      refine avoids_bind_raising ⟨not_not_intro (.inl rfl), fun _ => trivial⟩
        fun (userInfo : Option UserInfo) => ?_
      cases userInfo with
      | none => exact quiet_of_gate _
      | some userInfo =>
          refine avoids_bind_raising ⟨not_not_intro (.inl rfl), fun _ => trivial⟩
            fun (reply : GetChatServerRsp) => ?_
          by_cases hreply : reply.error ≠ 0
          · rw [if_pos hreply]
            exact quiet_of_gate _
          · rw [if_neg hreply]
            exact quiet_of_gate _

/-- The handler leaves the documents of the request in a body of JSON. -/
def Posts (reader : JsonReader) (request : HttpRequest) (program : HttpTry Unit) : Prop :=
  ∀ exchange : HttpExchange, Returning observe program
    (fun after _ => ∃ roots, Documents reader request roots ∧
      after = HttpExchange.adding
        { exchange with response_ := exchange.response_.set .content_type "text/json" }
        (roots.map BodyPart.document)) exchange

/-- What is written for a body that the reader does not throw at, by what has been recorded of it. -/
theorem posts_of_record {parsed : Option JsonValue → HttpTry Unit}
    (hquiet : ∀ result, (parsed result).run.Avoids fun effect => ¬ Quiet effect)
    (hrecord : ∀ result, reader con.request_.body = .ok result →
      Returning record (parsed result) (fun trace _ => ∃ roots, Documents reader con.request_ roots ∧
        HttpTrace.body trace = roots.map Sum.inr) []) :
    Posts reader con.request_ (readBody reader con >>= parsed) := by
  intro exchange
  apply returning_bind.mpr
  apply returning_perform_bind.mpr
  intro _
  refine returning_raising.mpr fun result hresult => ?_
  refine returning_iff_performs.mpr fun trace value htrace => ?_
  obtain ⟨roots, hroots, hbody⟩ := returning_iff_performs.mp (hrecord result hresult) trace value htrace
  rw [foldl_record, List.nil_append] at hbody
  refine ⟨roots, hroots, ?_⟩
  rw [foldl_observe_quiet (quiet_of_performs (hquiet result) htrace), hbody, List.map_map]
  rfl

theorem documents_of_writesOne {P : HttpTrace → Prop} {trace : HttpTrace}
    (hsame : ¬ PasswordsDiffer reader request) (hwrites : WritesOne P trace) :
    ∃ roots, Documents reader request roots ∧ HttpTrace.body trace = roots.map Sum.inr := by
  obtain ⟨members, code, hbody, -⟩ := hwrites
  refine ⟨[.object members], ⟨fun _ => ⟨_, rfl⟩, fun hdiffer => absurd hdiffer hsame⟩, ?_⟩
  rw [hbody]
  rfl

theorem documents_of_adds {P : HttpTrace → Prop} {program : HttpTry Unit}
    (hsame : ¬ PasswordsDiffer reader request)
    (hadds : Returning record program (fun trace _ => Adds P [] trace) []) :
    Returning record program (fun trace _ => ∃ roots, Documents reader request roots ∧
      HttpTrace.body trace = roots.map Sum.inr) [] := by
  refine returning_mono (fun trace _ hadds => ?_) hadds
  obtain ⟨tail, rfl, hwrites⟩ := hadds
  exact documents_of_writesOne hsame hwrites

theorem posts_get_verifycode (hsame : ¬ PasswordsDiffer reader con.request_) :
    Posts reader con.request_ (get_verifycode reader con) := by
  apply posts_of_record quiet_get_verifycode_parsed
  rintro (_ | src_root) -
  · exact documents_of_adds (P := fun _ => True) hsame
      (returning_gate_respond.mpr (adds_errorRoot (by decide)))
  · exact documents_of_adds hsame (@adds_get_verifycode_parsed ⟨[]⟩ [] src_root)

theorem posts_user_login (hsame : ¬ PasswordsDiffer reader con.request_) :
    Posts reader con.request_ (user_login reader con) := by
  apply posts_of_record quiet_user_login_parsed
  rintro (_ | src_root) -
  · exact documents_of_adds (P := fun _ => True) hsame
      (returning_gate_respond.mpr (adds_errorRoot (by decide)))
  · exact documents_of_adds hsame (@adds_user_login_parsed ⟨[]⟩ [] src_root)

theorem quiet_parsing (handler : GateHandler Bool) :
    (do let _ ← gate handler : HttpTry Unit).run.Avoids fun effect => ¬ Quiet effect :=
  avoids_bind_raising (quiet_of_gate handler) fun _ => trivial

theorem posts_reset_pwd (hsame : ¬ PasswordsDiffer reader con.request_) :
    Posts reader con.request_ (parsing reader (reset_pwd cfg) con) := by
  refine posts_of_record (fun result => quiet_parsing _) ?_
  rintro (_ | src_root) -
  · exact documents_of_adds (P := fun _ => True) hsame
      (returning_gate_bind.mpr (returning_respond.mpr (adds_errorRoot (by decide))))
  · exact documents_of_adds hsame (returning_gate_bind.mpr (adds_reset_pwd src_root))

/-- Where the passwords differ, the handler writes a document and goes on. -/
theorem posts_user_register (htarget : con.request_.target = ascii "/user_register") :
    Posts reader con.request_ (parsing reader (user_register cfg) con) := by
  refine posts_of_record (fun result => quiet_parsing _) ?_
  rintro (_ | src_root) hresult
  · refine documents_of_adds (P := fun _ => True) ?_
      (returning_gate_bind.mpr (returning_respond.mpr (adds_errorRoot (by decide))))
    rintro ⟨-, src_root, pwd, confirm, hparsed, -⟩
    rw [hresult] at hparsed
    exact absurd hparsed (by simp)
  · refine returning_gate_bind.mpr (returning_mono (fun trace _ hadds => ?_)
      (@adds_user_register cfg [] _ src_root))
    obtain ⟨pwd, confirm, hpwd, hconfirm, hadds⟩ := hadds
    by_cases heq : pwd = confirm
    · rw [if_pos heq] at hadds
      obtain ⟨tail, rfl, hwrites⟩ := hadds
      refine documents_of_writesOne ?_ hwrites
      rintro ⟨-, other, pwd', confirm', hparsed, hpwd', hconfirm', hne⟩
      obtain rfl := Option.some.inj (Except.ok.inj (hresult.symm.trans hparsed))
      obtain rfl := Except.ok.inj (hpwd.symm.trans hpwd')
      obtain rfl := Except.ok.inj (hconfirm.symm.trans hconfirm')
      exact hne heq
    · rw [if_neg heq] at hadds
      obtain ⟨tail, rfl, members, code, hbody, -⟩ := hadds
      have hdiffer : PasswordsDiffer reader con.request_ :=
        ⟨htarget, src_root, pwd, confirm, hresult, hpwd, hconfirm, heq⟩
      refine ⟨[errorRoot .PasswdErr, .object members],
        ⟨fun hsame => absurd hdiffer hsame, fun _ => ⟨_, rfl⟩⟩, ?_⟩
      have htwo : HttpTrace.body ([] ++ [⟨.gate (.respond (errorRoot .PasswdErr)), ()⟩] ++ tail)
          = .inr (errorRoot .PasswdErr) :: HttpTrace.body tail := rfl
      rw [htwo, hbody]
      rfl

theorem posts_of_lookup (con : HttpConnection) {handler : HttpHandler}
    (hhandler : (post_handlers_ cfg reader).lookup con.request_.target = some handler) :
    Posts reader con.request_ (handler con) := by
  obtain ⟨before, after, hlist, -⟩ := List.lookup_eq_some_iff.mp hhandler
  have hmem : (con.request_.target, handler) ∈ post_handlers_ cfg reader :=
    hlist ▸ List.mem_append_right _ List.mem_cons_self
  have hsame (htarget : con.request_.target ≠ ascii "/user_register") :
      ¬ PasswordsDiffer reader con.request_ := fun hdiffer => htarget hdiffer.1
  simp only [post_handlers_, List.mem_cons, List.not_mem_nil, or_false, Prod.mk.injEq] at hmem
  rcases hmem with ⟨htarget, rfl⟩ | ⟨htarget, rfl⟩ | ⟨htarget, rfl⟩ | ⟨htarget, rfl⟩
  · exact posts_get_verifycode (hsame (htarget ▸ by decide))
  · exact posts_user_register htarget
  · exact posts_reset_pwd (hsame (htarget ▸ by decide))
  · exact posts_user_login (hsame (htarget ▸ by decide))

/-! ### Every request -/

def Written (exchange : HttpExchange) (reply : Option HttpResponse) : Prop :=
  exchange.written = reply.toList ∧ ∀ response ∈ reply, exchange.response_ = response

/-- **Each route with its reply.** By the method, and by the handler that is registered for the
target. -/
theorem returning_HandleReq (cfg : ConfigMgr) (reader : JsonReader) (request : HttpRequest) :
    Returning observe (HandleReq cfg reader (new request))
      (fun exchange _ => ∃ reply, Replies cfg reader request reply ∧ Written exchange reply)
      HttpExchange.init := by
  have hwritten (reply : HttpResponse) : Written ⟨reply, [] ++ [reply]⟩ (some reply) :=
    ⟨rfl, fun response hresponse => Option.some.inj hresponse⟩
  apply returning_perform_bind.mpr
  intro _
  apply returning_perform_bind.mpr
  intro _
  rw [show (new request).request_ = request from rfl]
  cases hmethod : request.method with
  | get =>
      apply returning_bind.mpr
      refine returning_raising_observe fun con hparse => ?_
      apply returning_bind.mpr
      rw [HandleGet, handle, get_handlers_, List.lookup_cons]
      by_cases hurl : con.get_url_ = ascii "/get_test"
      · rw [hurl, beq_self_eq_true]
        apply returning_bind.mpr
        refine returning_mono (fun after _ hafter => ?_) returning_get_test
        obtain ⟨order, horder, rfl⟩ := hafter
        apply returning_pure.mpr
        exact returning_found rfl ⟨_, .get_test hmethod hparse hurl horder, hwritten _⟩
      · rw [beq_false_of_ne hurl]
        apply returning_pure.mpr
        exact returning_notFound rfl ⟨_, .noPage hmethod hparse hurl, hwritten _⟩
  | post =>
      apply returning_bind.mpr
      rw [HandlePost, handle]
      cases hhandler : (post_handlers_ cfg reader).lookup request.target with
      | none =>
          apply returning_pure.mpr
          exact returning_notFound rfl ⟨_, .noTarget hmethod hhandler, hwritten _⟩
      | some handler =>
          apply returning_bind.mpr
          refine returning_mono (fun after _ hafter => ?_)
            (posts_of_lookup (new request) hhandler _)
          obtain ⟨roots, hroots, rfl⟩ := hafter
          apply returning_pure.mpr
          exact returning_found rfl ⟨_, .documents hmethod hhandler hroots, hwritten _⟩
  | other name =>
      apply returning_pure.mpr
      exact ⟨none, .other hmethod, rfl, by simp⟩

/-! ### What is raised -/

def RaisesUnwritten (program : HttpTry α) : Prop :=
  ∀ exchange : HttpExchange, exchange.written = [] →
    program.run.wp observe (fun _ _ => True) (fun _ => True)
      (fun after result => ∀ e, result = .error e → after.written = []) exchange

theorem observe_written {effect : HttpCall} (heffect : effect ≠ .WriteResponse)
    (answer : effect.Answer) : (exchange.observe effect answer).written = exchange.written := by
  cases effect with
  | WriteResponse => exact absurd rfl heffect
  | gate call => cases call <;> rfl
  | _ => rfl

theorem wp_of_avoids {program : HttpProgram α} (havoids : program.Avoids (· = .WriteResponse))
    (hwritten : exchange.written = []) :
    program.wp observe (fun _ _ => True) (fun _ => True) (fun after _ => after.written = [])
      exchange := by
  induction program generalizing exchange with
  | ret value => exact ⟨trivial, hwritten⟩
  | call effect next ih =>
      refine ⟨trivial, fun answer _ => ih answer (havoids.2 answer) ?_⟩
      rw [observe_written havoids.1, hwritten]

theorem raisesUnwritten_bind {β : Type} {first : HttpTry α} {second : α → HttpTry β}
    (hfirst : first.run.Avoids (· = .WriteResponse))
    (hsecond : ∀ value, RaisesUnwritten (second value)) :
    RaisesUnwritten (first >>= second) := by
  intro exchange hwritten
  rw [ExceptT.run_bind, wp_bind]
  refine wp_mono (fun after result _ hafter => ?_) (wp_of_avoids hfirst hwritten)
  cases result with
  | error e => exact ⟨trivial, fun _ _ => hafter⟩
  | ok value => exact hsecond value after hafter

theorem raisesUnwritten_pure (value : α) : RaisesUnwritten (pure value : HttpTry α) :=
  fun _ hwritten => ⟨trivial, fun _ _ => hwritten⟩

theorem raisesUnwritten_finish (success : Bool) (notFound : String) :
    RaisesUnwritten (finish success notFound) := by
  cases success with
  | true =>
      refine raisesUnwritten_bind ⟨nofun, fun _ => trivial⟩ fun _ => ?_
      refine raisesUnwritten_bind ⟨nofun, fun _ => trivial⟩ fun _ => ?_
      exact fun _ _ => ⟨trivial, fun _ _ => ⟨trivial, nofun⟩⟩
  | false =>
      refine raisesUnwritten_bind ⟨nofun, fun _ => trivial⟩ fun _ => ?_
      refine raisesUnwritten_bind ⟨nofun, fun _ => trivial⟩ fun _ => ?_
      refine raisesUnwritten_bind ⟨nofun, fun _ => trivial⟩ fun _ => ?_
      exact fun _ _ => ⟨trivial, fun _ _ => ⟨trivial, nofun⟩⟩

theorem unwritten_writeParams (i : Nat) (params : List (Bytes × Bytes)) :
    (writeParams i params).run.Avoids (· = .WriteResponse) := by
  induction params generalizing i with
  | nil => exact trivial
  | cons elem rest ih =>
      refine avoids_bind_raising ⟨nofun, fun _ => trivial⟩ fun _ => ?_
      exact avoids_bind_raising ⟨nofun, fun _ => trivial⟩ fun _ => ih (i + 1)

theorem unwritten_of_quiet {program : HttpProgram α}
    (hquiet : program.Avoids fun effect => ¬ Quiet effect) :
    program.Avoids (· = .WriteResponse) := by
  refine hquiet.mono ?_
  rintro effect rfl (hcall | ⟨root, hroot⟩)
  · exact absurd hcall (by simp [HttpTrace.isCall])
  · exact absurd hroot nofun

theorem unwritten_handler {parsed : Option JsonValue → HttpTry Unit}
    (hquiet : ∀ result, (parsed result).run.Avoids fun effect => ¬ Quiet effect) :
    (readBody reader con >>= parsed).run.Avoids (· = .WriteResponse) := by
  refine avoids_bind_raising ?_ fun result => unwritten_of_quiet (hquiet result)
  exact avoids_bind_raising ⟨nofun, fun _ => trivial⟩ fun _ => trivial

theorem unwritten_handle {handlers : List (Bytes × HttpHandler)} (path : Bytes)
    (hhandlers : ∀ entry ∈ handlers, (entry.2 con).run.Avoids (· = .WriteResponse)) :
    (handle handlers path con).run.Avoids (· = .WriteResponse) := by
  rw [handle]
  cases hhandler : handlers.lookup path with
  | none => exact trivial
  | some handler =>
      obtain ⟨before, after, rfl, -⟩ := List.lookup_eq_some_iff.mp hhandler
      exact avoids_bind_raising
        (hhandlers (path, handler) (List.mem_append_right _ List.mem_cons_self)) fun _ => trivial

theorem unwritten_HandleGet (path : Bytes) : (HandleGet path con).run.Avoids (· = .WriteResponse) := by
  refine unwritten_handle path fun entry hentry => ?_
  rw [List.mem_singleton.mp hentry]
  refine avoids_bind_raising ⟨nofun, fun _ => trivial⟩ fun _ => ?_
  exact avoids_bind_raising ⟨nofun, fun _ => trivial⟩ fun _ => unwritten_writeParams 1 _

theorem unwritten_HandlePost (path : Bytes) :
    (HandlePost cfg reader path con).run.Avoids (· = .WriteResponse) := by
  refine unwritten_handle path fun entry hentry => ?_
  simp only [post_handlers_, List.mem_cons, List.not_mem_nil, or_false] at hentry
  rcases hentry with rfl | rfl | rfl | rfl
  · exact unwritten_handler quiet_get_verifycode_parsed
  · exact unwritten_handler fun result => quiet_parsing _
  · exact unwritten_handler fun result => quiet_parsing _
  · exact unwritten_handler quiet_user_login_parsed

/-- Only `finish` sends the response, and nothing comes behind it. -/
theorem raisesUnwritten_HandleReq (cfg : ConfigMgr) (reader : JsonReader) (con : HttpConnection) :
    RaisesUnwritten (HandleReq cfg reader con) := by
  refine raisesUnwritten_bind ⟨nofun, fun _ => trivial⟩ fun _ => ?_
  refine raisesUnwritten_bind ⟨nofun, fun _ => trivial⟩ fun _ => ?_
  cases con.request_.method with
  | get =>
      refine raisesUnwritten_bind trivial fun con => ?_
      refine raisesUnwritten_bind (unwritten_HandleGet _) fun success => ?_
      exact raisesUnwritten_finish success _
  | post =>
      refine raisesUnwritten_bind (unwritten_HandlePost _) fun success => ?_
      exact raisesUnwritten_finish success _
  | other name => exact raisesUnwritten_pure ()

/-- What has been written when `HandleReq` returns, and when it throws. -/
def Outcome (cfg : ConfigMgr) (reader : JsonReader) (request : HttpRequest) (exchange : HttpExchange) :
    Except HttpError Unit → Prop
  | .ok _ => ∃ reply, Replies cfg reader request reply ∧ Written exchange reply
  | .error _ => exchange.written = []

theorem wp_HandleReq (cfg : ConfigMgr) (reader : JsonReader) (request : HttpRequest) :
    (HandleReq cfg reader (new request)).run.wp observe (fun _ _ => True) (fun _ => True)
      (Outcome cfg reader request) HttpExchange.init := by
  have hraised := raisesUnwritten_HandleReq cfg reader (new request) HttpExchange.init rfl
  refine wp_iff_performs.mpr fun trace result htrace => ?_
  cases result with
  | error e => exact wp_iff_performs.mp hraised trace (.error e) htrace e rfl
  | ok value =>
      exact returning_iff_performs.mp (returning_HandleReq cfg reader request) trace () htrace

/-- **What every request is written.** Whatever the calls come to: when `HandleReq` returns, the reply
has been written, once and as it stays, or there is none. -/
theorem handleReq_replies {trace : HttpTrace}
    (htrace : (HandleReq cfg reader (new request)).run.Performs trace (.ok ())) :
    ∃ reply, Replies cfg reader request reply ∧ Written (HttpExchange.after trace) reply :=
  returning_iff_performs.mp (returning_HandleReq cfg reader request) trace () htrace

/-- A request for a code, which has been sent. -/
theorem handleReq_replies_get_verifycode :
    ∃ trace : HttpTrace, (HandleReq ⟨[]⟩ (fun _ => .ok (some emailRoot))
        (new ⟨.post, ascii "/get_verifycode", 11, []⟩)).run.Performs trace (.ok ()) ∧
      ∃ reply, Replies ⟨[]⟩ (fun _ => .ok (some emailRoot))
          ⟨.post, ascii "/get_verifycode", 11, []⟩ reply ∧
        Written (HttpExchange.after trace) reply := by
  have hpath : (HandleReq ⟨[]⟩ (fun _ => .ok (some emailRoot))
      (new ⟨.post, ascii "/get_verifycode", 11, []⟩)).run.Performs
      [⟨.version 11, ()⟩, ⟨.keep_alive false, ()⟩, ⟨.set .content_type "text/json", ()⟩,
        ⟨.GetVerifyCode (ascii "e"), ⟨0, [], []⟩⟩,
        ⟨.gate (.respond
          (.object [(ascii "error", .int 0), (ascii "email", .string (ascii "e"))])), ()⟩,
        ⟨.result .ok, ()⟩, ⟨.set .server "GateServer", ()⟩, ⟨.WriteResponse, ()⟩]
      (.ok ()) := .call (.call (.call (.call (.call (.call (.call (.call (.ret _))))))))
  exact ⟨_, hpath, handleReq_replies hpath⟩

end HttpConnection

end QuickChat
