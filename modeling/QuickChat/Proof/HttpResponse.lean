import QuickChat.Proof.Query

/-!
# Which requests are answered

The handlers write to the response but never send it: that is what `HandleReq` does when they return, on
both of its branches for a method that it knows. So a request is answered once on every path if its
handler returns on every path, and a handler returns if every member that it reads can be converted.
-/

namespace QuickChat

namespace LogicSystem

variable {α : Type} {handler : GateHandler α} {second : Bytes → GateHandler α} {cfg : ConfigMgr}
  {parse : Bytes → Option JsonValue} {body email : Bytes} {src_root : JsonValue}

/-! ### Handlers that return -/

def Returns (handler : GateHandler α) : Prop :=
  handler.run.wp (fun (state : Unit) _ _ => state) (fun _ _ => True) (fun _ => True)
    (fun _ result => ∃ value, result = .ok value) ()

theorem returns_call_bind {call : GateCall} {second : call.Answer → GateHandler α} :
    Returns ((ExceptT.lift (Program.perform call) : GateHandler call.Answer) >>= second) ↔
      ∀ answer, Returns (second answer) := by
  rw [Returns, Program.wp_lift_bind, Program.wp_perform]
  constructor
  · intro hall answer
    exact (hall.2 answer trivial).2
  · intro hall
    exact ⟨trivial, fun answer _ => ⟨trivial, hall answer⟩⟩

theorem returns_field_bind {key : String} :
    Returns (field src_root key >>= second) ↔
      ∃ value, src_root.field key = .ok value ∧ Returns (second value) := by
  rw [Returns, field, Program.wp_raising_bind]
  cases hfield : src_root.field key with
  | error e => simp
  | ok value => simp [Returns]

theorem returns_pure (value : α) : Returns (pure value : GateHandler α) := ⟨trivial, value, rfl⟩

theorem returns_respond (root : JsonValue) :
    Returns (do respond root; return true : GateHandler Bool) :=
  returns_call_bind.mpr fun _ => returns_pure true

theorem returns_RedisGet_bind {key : Bytes} {second : Bool × Bytes → GateHandler α} :
    Returns (RedisGet key >>= second) ↔ ∀ answer, Returns (second answer) :=
  returns_call_bind

/-- The one member that the step itself reads is the code. -/
theorem returns_verification {next : Bytes → GateHandler Bool} (hnext : ∀ code, Returns (next code)) :
    Returns (verification cfg src_root email next) ↔
      ∃ verifycode, src_root.field "verifycode" = .ok verifycode := by
  rw [verification, returns_RedisGet_bind]
  constructor
  · intro hall
    -- the code of the email is found
    obtain ⟨verifycode, hfield, -⟩ := returns_field_bind.mp (hall (true, []))
    exact ⟨verifycode, hfield⟩
  · rintro ⟨verifycode, hfield⟩ ⟨b_get_verify, verify_code⟩
    dsimp only
    split
    · exact returns_respond _
    · refine returns_field_bind.mpr ⟨verifycode, hfield, ?_⟩
      split
      · exact returns_respond _
      · exact hnext verifycode

theorem user_register_verified_returns (email name pwd confirm verifycode : Bytes) :
    Returns (user_register_verified email name pwd confirm verifycode) := by
  refine returns_call_bind.mpr fun uid => ?_
  split
  · exact returns_respond _
  · exact returns_respond _

theorem reset_pwd_verified_returns (email name pwd verifycode : Bytes) :
    Returns (reset_pwd_verified email name pwd verifycode) := by
  refine returns_call_bind.mpr fun email_valid => ?_
  split
  · exact returns_respond _
  · refine returns_call_bind.mpr fun b_up => ?_
    split
    · exact returns_respond _
    · exact returns_respond _

/-- The members can be read as strings. -/
def Readable (src_root : JsonValue) (names : List String) : Prop :=
  ∀ name ∈ names, ∃ value, src_root.field name = .ok value

theorem readable_cons {name : String} {names : List String} :
    Readable src_root (name :: names) ↔
      (∃ value, src_root.field name = .ok value) ∧ Readable src_root names :=
  List.forall_mem_cons

theorem readable_nil : Readable src_root [] := List.forall_mem_nil _

/-- Of the members read, each can throw, and the calls cannot. -/
theorem returns_user_register :
    Returns (user_register cfg parse body) ↔ ∀ src_root ∈ parse body,
      Readable src_root ["email", "user", "passwd", "confirm", "verifycode"] := by
  unfold user_register
  cases hparse : parse body with
  | none => exact iff_of_true (returns_respond _) (by simp)
  | some src_root =>
      simp only [Option.mem_some_iff, forall_eq', readable_cons, readable_nil, and_true]
      constructor
      · intro hreturns
        obtain ⟨email, hemail, hreturns⟩ := returns_field_bind.mp hreturns
        obtain ⟨name, hname, hreturns⟩ := returns_field_bind.mp hreturns
        obtain ⟨pwd, hpwd, hreturns⟩ := returns_field_bind.mp hreturns
        obtain ⟨confirm, hconfirm, hreturns⟩ := returns_field_bind.mp hreturns
        have hverification :
            Returns (verification cfg src_root email (user_register_verified email name pwd confirm)) := by
          split at hreturns
          · exact returns_call_bind.mp hreturns ()
          · exact hreturns
        refine ⟨⟨email, hemail⟩, ⟨name, hname⟩, ⟨pwd, hpwd⟩, ⟨confirm, hconfirm⟩, ?_⟩
        exact (returns_verification (user_register_verified_returns email name pwd confirm)).mp
          hverification
      · rintro ⟨⟨email, hemail⟩, ⟨name, hname⟩, ⟨pwd, hpwd⟩, ⟨confirm, hconfirm⟩, hcode⟩
        refine returns_field_bind.mpr ⟨email, hemail, ?_⟩
        refine returns_field_bind.mpr ⟨name, hname, ?_⟩
        refine returns_field_bind.mpr ⟨pwd, hpwd, ?_⟩
        refine returns_field_bind.mpr ⟨confirm, hconfirm, ?_⟩
        have hverification :
            Returns (verification cfg src_root email (user_register_verified email name pwd confirm)) :=
          (returns_verification (user_register_verified_returns email name pwd confirm)).mpr hcode
        split
        · exact returns_call_bind.mpr fun _ => hverification
        · exact hverification

theorem returns_reset_pwd :
    Returns (reset_pwd cfg parse body) ↔ ∀ src_root ∈ parse body,
      Readable src_root ["email", "user", "passwd", "verifycode"] := by
  unfold reset_pwd
  cases hparse : parse body with
  | none => exact iff_of_true (returns_respond _) (by simp)
  | some src_root =>
      simp only [Option.mem_some_iff, forall_eq', readable_cons, readable_nil, and_true]
      constructor
      · intro hreturns
        obtain ⟨email, hemail, hreturns⟩ := returns_field_bind.mp hreturns
        obtain ⟨name, hname, hreturns⟩ := returns_field_bind.mp hreturns
        obtain ⟨pwd, hpwd, hreturns⟩ := returns_field_bind.mp hreturns
        refine ⟨⟨email, hemail⟩, ⟨name, hname⟩, ⟨pwd, hpwd⟩, ?_⟩
        exact (returns_verification (reset_pwd_verified_returns email name pwd)).mp hreturns
      · rintro ⟨⟨email, hemail⟩, ⟨name, hname⟩, ⟨pwd, hpwd⟩, hcode⟩
        refine returns_field_bind.mpr ⟨email, hemail, ?_⟩
        refine returns_field_bind.mpr ⟨name, hname, ?_⟩
        refine returns_field_bind.mpr ⟨pwd, hpwd, ?_⟩
        exact (returns_verification (reset_pwd_verified_returns email name pwd)).mpr hcode

end LogicSystem

namespace HttpConnection

open LogicSystem

variable {α β : Type} {cfg : ConfigMgr} {reader : JsonReader} {con : HttpConnection}

/-! ### What is sent -/

def IsWriteResponse (effect : HttpCall) : Bool := effect matches .WriteResponse

def responses (trace : List ((effect : HttpCall) × effect.Answer)) : Nat :=
  trace.countP fun entry => IsWriteResponse entry.1

/-- Whatever the calls come to, the function returns and has sent one response. -/
def Answers (program : HttpTry Unit) : Prop :=
  ∀ trace result, program.run.Performs trace result → result = .ok () ∧ responses trace = 1

def count (sent : Nat) (effect : HttpCall) (_ : effect.Answer) : Nat :=
  if IsWriteResponse effect then sent + 1 else sent

abbrev Watch (Q : Nat → α → Prop) (program : HttpProgram α) (sent : Nat) : Prop :=
  program.wp count (fun _ _ => True) (fun _ => True) Q sent

theorem foldl_count (trace : List ((effect : HttpCall) × effect.Answer)) (sent : Nat) :
    trace.foldl (fun sent entry => count sent entry.1 entry.2) sent = sent + responses trace := by
  induction trace generalizing sent with
  | nil => rfl
  | cons entry trace ih =>
      rw [List.foldl_cons, ih, responses, responses, List.countP_cons, count]
      split <;> omega

theorem answers_iff (program : HttpTry Unit) :
    Answers program ↔ Watch (fun sent result => result = .ok () ∧ sent = 1) program.run 0 := by
  rw [Watch, Program.wp_iff_performs]
  simp only [foldl_count, Nat.zero_add]
  exact Iff.rfl

theorem watch_call_bind {effect : HttpCall} {second : effect.Answer → HttpTry α}
    {Q : Nat → Except HttpError α → Prop} {sent : Nat} :
    Watch Q (call effect >>= second).run sent ↔
      ∀ answer, Watch Q (second answer).run (count sent effect answer) := by
  rw [call, Watch, Program.wp_lift_bind, Program.wp_perform]
  constructor
  · intro hall answer
    exact (hall.2 answer trivial).2
  · intro hall
    exact ⟨trivial, fun answer _ => ⟨trivial, hall answer⟩⟩

theorem count_eq {effect : HttpCall} (heffect : IsWriteResponse effect = false) (sent : Nat)
    (answer : effect.Answer) : count sent effect answer = sent := by
  simp [count, heffect]

theorem watch_skip {effect : HttpCall} {rest : HttpTry α} {Q : Nat → Except HttpError α → Prop}
    {sent : Nat} (answer : effect.Answer) (heffect : IsWriteResponse effect = false) :
    Watch Q (do let _ ← call effect; rest : HttpTry α).run sent ↔ Watch Q rest.run sent := by
  rw [watch_call_bind]
  constructor
  · intro hall
    exact count_eq heffect sent answer ▸ hall answer
  · intro hrest answer
    rwa [count_eq heffect]

def Silent (handler : HttpTry α) : Prop :=
  Watch (fun sent result => sent = 0 ∧ ∃ value, result = .ok value) handler.run 0

theorem silent_pure (value : α) : Silent (pure value : HttpTry α) := ⟨trivial, rfl, value, rfl⟩

theorem silent_call_bind {effect : HttpCall} (heffect : IsWriteResponse effect = false)
    {second : effect.Answer → HttpTry α} :
    Silent (call effect >>= second) ↔ ∀ answer, Silent (second answer) := by
  rw [Silent, watch_call_bind]
  refine forall_congr' fun answer => ?_
  rw [count_eq heffect, Silent]

theorem silent_set_bind {field : HttpField} {value : String} {second : Unit → HttpTry α} :
    Silent (set field value >>= second) ↔ Silent (second ()) :=
  (silent_call_bind rfl).trans ⟨fun hall => hall (), fun hsecond _ => hsecond⟩

theorem silent_raising_bind {ε : Type} {toError : ε → HttpError} {result : Except ε α}
    {second : α → HttpTry β} :
    Silent (raising toError result >>= second) ↔
      ∃ value, result = .ok value ∧ Silent (second value) := by
  rw [Silent, raising, Watch, Program.wp_raising_bind]
  cases result with
  | error e => simp [Except.mapError]
  | ok value => simp [Except.mapError, Silent]

theorem silent_readBody_bind {second : Option JsonValue → HttpTry α} :
    Silent (readBody reader con >>= second) ↔
      ∃ parsed, reader con.request_.body = .ok parsed ∧ Silent (second parsed) := by
  have hread : Silent (ExceptT.mk (pure (reader con.request_.body)) >>= second) ↔
      ∃ parsed, reader con.request_.body = .ok parsed ∧ Silent (second parsed) := by
    rw [Silent, Watch, Program.wp_raising_bind]
    cases reader con.request_.body with
    | error e => simp
    | ok parsed => simp [Silent]
  rw [readBody, bind_assoc, silent_set_bind, hread]

theorem watch_performGate {program : GateProgram α} {Q : Nat → α → Prop} {sent : Nat} :
    Watch Q (program.interp performGate) sent ↔
      program.wp (fun (state : Unit) _ _ => state) (fun _ _ => True) (fun _ => True)
        (fun _ value => Q sent value) () := by
  induction program with
  | ret value => exact Iff.rfl
  | call effect next ih =>
      constructor
      · intro hall
        exact ⟨trivial, fun answer _ => (ih answer).mp (hall.2 answer trivial)⟩
      · intro hall
        exact ⟨trivial, fun answer _ => (ih answer).mpr (hall.2 answer trivial)⟩

theorem silent_gate {handler : GateHandler α} : Silent (gate handler) ↔ Returns handler := by
  rw [Silent, gate, ExceptT.run_mk, Watch, Program.wp_bind, ← Watch, watch_performGate, Returns]
  refine Program.wp_congr fun _ result => ?_
  cases result with
  | error e => simp [Except.mapError]
  | ok value => simp [Except.mapError]

theorem silent_respond (root : JsonValue) : Silent (gate (respond root)) :=
  silent_gate.mpr ⟨trivial, fun answer _ => ⟨trivial, answer, rfl⟩⟩

/-! ### The handlers -/

theorem silent_writeParams (i : Nat) (params : List (Bytes × Bytes)) :
    Silent (writeParams i params) := by
  induction params generalizing i with
  | nil => exact silent_pure ()
  | cons elem rest ih =>
      refine (silent_call_bind rfl).mpr fun _ => (silent_call_bind rfl).mpr fun _ => ?_
      exact ih (i + 1)

theorem silent_get_test (con : HttpConnection) : Silent (get_test con) :=
  (silent_call_bind rfl).mpr fun _ => (silent_call_bind rfl).mpr fun order =>
    silent_writeParams 1 order.val

/-- A handler of a POST request returns if the reader does, and what it reads of a document can be
read. -/
theorem silent_posting {parsed : Option JsonValue → HttpTry α} {names : List String}
    (hnone : Silent (parsed none))
    (hsome : ∀ src_root, Silent (parsed (some src_root)) ↔ Readable src_root names) :
    Silent (readBody reader con >>= parsed) ↔ ∃ result, reader con.request_.body = .ok result ∧
      ∀ src_root ∈ result, Readable src_root names := by
  rw [silent_readBody_bind]
  refine exists_congr fun result => and_congr_right fun _ => ?_
  cases result with
  | none => exact iff_of_true hnone (by simp)
  | some src_root => simpa using hsome src_root

theorem silent_get_verifycode :
    Silent (get_verifycode reader con) ↔ ∃ result, reader con.request_.body = .ok result ∧
      ∀ src_root ∈ result, Readable src_root ["email"] := by
  refine silent_posting (silent_respond _) fun src_root => ?_
  simp only [readable_cons, readable_nil, and_true]
  constructor
  · intro hsilent
    obtain ⟨email, hemail, -⟩ := silent_raising_bind.mp hsilent
    exact ⟨email, hemail⟩
  · rintro ⟨email, hemail⟩
    refine silent_raising_bind.mpr ⟨email, hemail, (silent_call_bind rfl).mpr fun rsp => ?_⟩
    -- the member has been read before
    cases hmember : src_root.member "email" with
    | error e =>
        rw [JsonValue.field, hmember] at hemail
        exact absurd hemail (by simp [bind, Except.bind])
    | ok member => exact silent_raising_bind.mpr ⟨member, rfl, silent_respond _⟩

theorem silent_user_login :
    Silent (user_login reader con) ↔ ∃ result, reader con.request_.body = .ok result ∧
      ∀ src_root ∈ result, Readable src_root ["user", "passwd"] := by
  refine silent_posting (silent_respond _) fun src_root => ?_
  simp only [readable_cons, readable_nil, and_true]
  constructor
  · intro hsilent
    obtain ⟨name, hname, hsilent⟩ := silent_raising_bind.mp hsilent
    obtain ⟨pwd, hpwd, -⟩ := silent_raising_bind.mp hsilent
    exact ⟨⟨name, hname⟩, ⟨pwd, hpwd⟩⟩
  · rintro ⟨⟨name, hname⟩, ⟨pwd, hpwd⟩⟩
    refine silent_raising_bind.mpr ⟨name, hname, silent_raising_bind.mpr ⟨pwd, hpwd, ?_⟩⟩
    refine (silent_call_bind rfl).mpr fun userInfo => ?_
    cases userInfo with
    | none => exact silent_respond _
    | some userInfo =>
        refine (silent_call_bind rfl).mpr fun reply => ?_
        split
        · exact silent_respond _
        · exact silent_respond _

theorem silent_gate_bind {handler : GateHandler β} :
    Silent (do let _ ← gate handler : HttpTry Unit) ↔ Returns handler := by
  rw [← silent_gate, Silent, Silent, Watch, ExceptT.run_bind, Program.wp_bind]
  refine Program.wp_congr fun sent result => ?_
  cases result with
  | error e => simp
  | ok value => simp

theorem silent_parsing {handler : (Bytes → Option JsonValue) → Bytes → GateHandler Bool}
    {names : List String}
    (hhandler : ∀ parse body, Returns (handler parse body) ↔
      ∀ src_root ∈ parse body, Readable src_root names) :
    Silent (parsing reader handler con) ↔ ∃ result, reader con.request_.body = .ok result ∧
      ∀ src_root ∈ result, Readable src_root names := by
  apply silent_posting
  · rw [silent_gate_bind, hhandler]
    simp
  · intro src_root
    rw [silent_gate_bind, hhandler]
    simp

/-! ### The request -/

def postMembers : List (Bytes × List String) :=
  [(Text.ascii "/get_verifycode", ["email"]),
    (Text.ascii "/user_register", ["email", "user", "passwd", "confirm", "verifycode"]),
    (Text.ascii "/reset_pwd", ["email", "user", "passwd", "verifycode"]),
    (Text.ascii "/user_login", ["user", "passwd"])]

/-- A GET request whose escapes are complete, or a POST request to a target that is not registered or
with a body that the reader does not throw at and whose members can be read. -/
def Answerable (reader : JsonReader) (request : HttpRequest) : Prop :=
  match request.method with
  | .get => ∀ segment ∈ querySegments request.target, 61 ∈ segment → Escaped segment
  | .post => ∀ names ∈ postMembers.lookup request.target,
      ∃ parsed, reader request.body = .ok parsed ∧ ∀ src_root ∈ parsed, Readable src_root names
  | .other _ => False

/-- `finish` sends the one response that is sent. -/
theorem watch_finish {success : Bool} {notFound : String} {sent : Nat} :
    Watch (fun sent result => result = .ok () ∧ sent = 1) (finish success notFound).run sent ↔
      sent = 0 := by
  have hwrite {sent : Nat} :
      Watch (fun sent result => result = .ok () ∧ sent = 1) WriteResponse.run sent ↔ sent = 0 := by
    constructor
    · intro hall
      exact Nat.succ.inj (hall.2 () trivial).2.2
    · rintro rfl
      exact ⟨trivial, fun _ _ => ⟨trivial, rfl, rfl⟩⟩
  cases success with
  | false =>
      refine Iff.trans (watch_skip () rfl) ?_
      refine Iff.trans (watch_skip () rfl) ?_
      exact Iff.trans (watch_skip () rfl) hwrite
  | true =>
      refine Iff.trans (watch_skip () rfl) ?_
      exact Iff.trans (watch_skip () rfl) hwrite

/-- A route is answered if its handler gets through in silence, since `finish` comes behind it. -/
theorem watch_handle {handlers : List (Bytes × HttpHandler)} {path : Bytes} {notFound : String} :
    Watch (fun sent result => result = .ok () ∧ sent = 1)
        (handle handlers path con >>= fun success => finish success notFound).run 0 ↔
      ∀ handler ∈ handlers.lookup path, Silent (handler con) := by
  unfold handle
  cases hlookup : handlers.lookup path with
  | none =>
      dsimp only
      rw [pure_bind]
      exact iff_of_true (watch_finish.mpr rfl) (by simp)
  | some handler =>
      simp only [Option.mem_some_iff, forall_eq']
      rw [bind_assoc, Silent, Watch, ExceptT.run_bind, Program.wp_bind]
      refine Program.wp_congr fun sent result => ?_
      cases result with
      | error e => simp
      | ok value =>
          rw [pure_bind]
          simpa using watch_finish

theorem forall_lookup_iff {γ δ : Type} {p : γ → Prop} {q : δ → Prop} {first : List (Bytes × γ)}
    {second : List (Bytes × δ)}
    (hlists : List.Forall₂ (fun x y => x.1 = y.1 ∧ (p x.2 ↔ q y.2)) first second) (key : Bytes) :
    (∀ x ∈ first.lookup key, p x) ↔ ∀ y ∈ second.lookup key, q y := by
  induction hlists with
  | nil => simp
  | @cons x y first second hhead _ ih =>
      obtain ⟨hkey, hvalue⟩ := hhead
      rw [List.lookup_cons, List.lookup_cons, hkey]
      split
      · simpa using hvalue
      · exact ih

/-- The handlers that are registered for POST read the members that are listed for them. -/
theorem silent_post_handlers_ {target : Bytes} :
    (∀ handler ∈ (post_handlers_ cfg reader).lookup target, Silent (handler con)) ↔
      ∀ names ∈ postMembers.lookup target, ∃ parsed, reader con.request_.body = .ok parsed ∧
        ∀ src_root ∈ parsed, Readable src_root names := by
  refine forall_lookup_iff (p := fun handler : HttpHandler => Silent (handler con))
    (q := fun names => ∃ parsed, reader con.request_.body = .ok parsed ∧
      ∀ src_root ∈ parsed, Readable src_root names) ?_ target
  exact .cons ⟨rfl, silent_get_verifycode⟩ (.cons ⟨rfl, silent_parsing fun _ _ => returns_user_register⟩
    (.cons ⟨rfl, silent_parsing fun _ _ => returns_reset_pwd⟩ (.cons ⟨rfl, silent_user_login⟩ .nil)))

/-- **Which requests are answered.** A request gets exactly one response, and `HandleReq` returns,
whatever the calls come to as long as each comes to something, exactly if the request is answerable. -/
theorem handleReq_answers_iff (cfg : ConfigMgr) (reader : JsonReader) (request : HttpRequest) :
    Answers (HandleReq cfg reader (new request)) ↔ Answerable reader request := by
  have hprelude (rest : HttpTry Unit) {Q : Nat → Except HttpError Unit → Prop} :
      Watch Q (do version request.version; keep_alive false; rest : HttpTry Unit).run 0 ↔
        Watch Q rest.run 0 :=
    Iff.trans (watch_skip () rfl) (watch_skip () rfl)
  rw [answers_iff]
  refine (hprelude _).trans ?_
  rw [Answerable, show (new request).request_ = request from rfl]
  cases request.method with
  | get =>
      have hparse : (∃ parsed, (new request).PreParseGetParam = .ok parsed) ↔
          ∀ segment ∈ querySegments request.target, 61 ∈ segment → Escaped segment :=
        preParseGetParam_ok_iff (new request)
      dsimp only
      rw [raising, Watch, Program.wp_raising_bind, ← hparse]
      cases (new request).PreParseGetParam with
      | error e => simp [Except.mapError]
      | ok con =>
          refine watch_handle.trans (iff_of_true (fun handler hhandler => ?_) ⟨con, rfl⟩)
          rw [get_handlers_, List.lookup_cons] at hhandler
          split at hhandler
          · exact Option.some.inj hhandler ▸ silent_get_test con
          · exact absurd hhandler (by simp)
  | post => exact watch_handle.trans silent_post_handlers_
  | other name => exact iff_of_false (fun hall => absurd hall.2.2 (by decide)) id

/-- A PUT request is read and not answered, a percent sign at the end of a parameter fails an assertion,
and a body that is an array makes the handler throw. -/
theorem requests_unanswered :
    ¬ Answers (HandleReq ⟨[]⟩ (fun _ => .ok none)
        (new ⟨.other (Text.ascii "PUT"), Text.ascii "/get_test", 11, []⟩)) ∧
      ¬ Answers (HandleReq ⟨[]⟩ (fun _ => .ok none)
        (new ⟨.get, Text.ascii "/get_test?a=%", 11, []⟩)) ∧
      ¬ Answers (HandleReq ⟨[]⟩ (fun _ => .ok (some (.array [])))
        (new ⟨.post, Text.ascii "/user_login", 11, Text.ascii "[]"⟩)) := by
  refine ⟨fun hall => ?_, fun hall => ?_, fun hall => ?_⟩
  · obtain ⟨-, hsent⟩ := hall [⟨.version 11, ()⟩, ⟨.keep_alive false, ()⟩] (.ok ())
      (.call (.call (.ret _)))
    exact absurd hsent (by decide)
  · have hnot : ¬ ∃ parsed,
        (new ⟨.get, Text.ascii "/get_test?a=%", 11, []⟩).PreParseGetParam = .ok parsed := by
      intro hparse
      have hescaped := (preParseGetParam_ok_iff _).mp hparse (Text.ascii "a=%") (by decide) (by decide)
      have hvalue : Escaped [37] := ((@escaped_append_eq [97] [37]).mp hescaped).2
      exact not_escaped_short (by simp) hvalue
    cases hparse : (new ⟨.get, Text.ascii "/get_test?a=%", 11, []⟩).PreParseGetParam with
    | ok con => exact hnot ⟨con, hparse⟩
    | error e =>
        have hpath : (HandleReq ⟨[]⟩ (fun _ => .ok none)
            (new ⟨.get, Text.ascii "/get_test?a=%", 11, []⟩)).run.Performs
            [⟨.version 11, ()⟩, ⟨.keep_alive false, ()⟩] (.error (.assertion e)) := by
          refine .call (.call ?_)
          dsimp only [new] at hparse ⊢
          rw [hparse]
          exact .ret _
        exact absurd (hall _ _ hpath).1 (by simp)
  · obtain ⟨hresult, -⟩ := hall
      [⟨.version 11, ()⟩, ⟨.keep_alive false, ()⟩, ⟨.set .content_type "text/json", ()⟩]
      (.error (.json .notObject)) (.call (.call (.call (.ret _))))
    exact absurd hresult (by simp)

end HttpConnection

end QuickChat
