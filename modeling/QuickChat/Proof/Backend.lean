import QuickChat.Gate.Backend
import QuickChat.Proof.CallOrder
import QuickChat.Proof.GateConnections

/-!
# The calls of the connections

Between two calls of a connection there may be any others, but what is left of its `HandleReq` goes on
in order from what it has called and been answered itself. So a call that is made in a run is due by the
calls that its own connection has made before.
-/

namespace QuickChat

open Program

namespace GateConnection

variable {cfg : ConfigMgr} {reader : JsonReader} {now : Nat} {con next : GateConnection} {event : Event}
  {request : HttpRequest}

/-- Without a call, `HandleReq` stays where it is, or begins. -/
theorem Stepped.handling_cases {rest : HttpProgram (Except HttpError Unit)}
    (hstep : Stepped cfg reader now con event next) (hproceeds : event.proceeds = false)
    (hstage : next.stage = .handling request rest) :
    con.stage = .handling request rest ∨
      con.request? = none ∧ rest = (HttpConnection.HandleReq cfg reader (.new request)).run := by
  cases hstep with
  | accept ok hbefore => cases ok <;> exact absurd hstage (by simp)
  | unread hbefore => exact absurd hstage (by simp)
  | read other hbefore =>
      obtain ⟨rfl, rfl⟩ := GateStage.handling.inj hstage
      exact .inr ⟨by simp [request?, hbefore], rfl⟩
  | proceed answer hbefore => exact absurd rfl (Bool.eq_false_iff.mp hproceeds)
  | returned hbefore => exact absurd hstage (by simp [CheckDeadline])
  | raised hbefore => exact absurd hstage (by simp)
  | _ => exact .inl hstage

end GateConnection

namespace GateConnections

open GateConnection

variable {cfg : ConfigMgr} {reader : JsonReader} {gate next : GateConnections} {i : Nat}

/-- A step of a connection replaces it, and may add one that is being accepted. -/
theorem connections_of_step {event : GateConnection.Event}
    (hstep : step cfg reader gate (.connection i event) = some next) :
    ∃ con con' added, gate.connections[i]? = some con ∧ Stepped cfg reader gate.now con event con' ∧
      next.connections = gate.connections.set i con' ++ added ∧
      ∀ other ∈ added, other.stage = .accepting := by
  obtain ⟨-, con, con', hget, -, hcon', ⟨-, rfl⟩ | ⟨-, hstart⟩⟩ := step_connection hstep
  · exact ⟨con, con', [], hget, hcon', (List.append_nil _).symm, List.forall_mem_nil _⟩
  · obtain ⟨given, -, rfl⟩ := Option.map_eq_some_iff.mp hstart
    exact ⟨con, con', _, hget, hcon', rfl, List.forall_mem_singleton.mpr rfl⟩

end GateConnections

namespace Backend

open Machine HttpConnection LogicSystem GateConnection

variable {reg_user : RegUserProcedure} {cfg : ConfigMgr} {reader : JsonReader}
  {backend next : Backend} {past : List (Backend × Event)} {entry : Backend × Event} {call : Call}
  {i : Nat} {con : GateConnection} {request : HttpRequest} {world : CallWorld}

/-! ### One step -/

theorem step_elapse (hstep : step reg_user cfg reader backend .elapse = some next) :
    next = backend.elapse { backend.gate with now := backend.gate.now + 1 } := by
  obtain ⟨gate, hgate, rfl⟩ := Option.map_eq_some_iff.mp hstep
  rw [(GateConnections.step_elapse hgate).2]

theorem step_connection {event : GateConnection.Event}
    (hstep : step reg_user cfg reader backend (.connection i event) = some next) :
    event.proceeds = false ∧ next.stores = backend.stores ∧
      backend.gate.step cfg reader (.connection i event) = some next.gate := by
  obtain ⟨hproceeds, hstep⟩ := Option.ite_none_left_eq_some.mp hstep
  obtain ⟨gate, hgate, rfl⟩ := Option.map_eq_some_iff.mp hstep
  exact ⟨eq_false_of_ne_true hproceeds, rfl, hgate⟩

/-- A call of a handler is made where its program is at a call, and changes what it is answered
from. -/
theorem step_call (hstep : step reg_user cfg reader backend (.call i world) = some next) :
    backend.gate.aborted = false ∧
      ∃ con request effect rest answer stores, backend.gate.connections[i]? = some con ∧
        con.stage = .handling request (.call effect rest) ∧
        world.serve reg_user cfg effect backend.stores = some (answer, stores) ∧
        next = backend.answered i (con.perform request effect answer (rest answer)) stores := by
  obtain ⟨haborted, hstep⟩ := Option.ite_none_left_eq_some.mp hstep
  obtain ⟨con, hget, hstep⟩ := Option.bind_eq_some_iff.mp hstep
  refine ⟨eq_false_of_ne_true haborted, con, ?_⟩
  cases hstage : con.stage with
  | handling request rest =>
      cases rest with
      | ret result => simp [hstage] at hstep
      | call effect rest =>
          simp only [hstage] at hstep
          obtain ⟨⟨answer, stores⟩, hserve, rfl⟩ := Option.map_eq_some_iff.mp hstep
          exact ⟨request, effect, rest, answer, stores, hget, rfl, hserve, rfl⟩
  | _ => simp [hstage] at hstep

theorem step_write {key : Bytes} {written : Option (RedisValue × Option Nat)}
    (hstep : step reg_user cfg reader backend (.write key written) = some next) :
    ¬ cfg.value "Redis" "verify_prefix" <+: key ∧ ¬ USERTOKENPREFIX <+: key ∧
      next.gate = backend.gate ∧ next.stores.mysql = backend.stores.mysql ∧
      next.stores.redis = backend.stores.redis.put key written := by
  obtain ⟨hkey, hstep⟩ := Option.ite_none_left_eq_some.mp hstep
  obtain rfl := Option.some.inj hstep
  exact ⟨fun hcode => hkey (.inl hcode), fun htoken => hkey (.inr htoken), rfl, rfl, rfl⟩

/-- The gate of a step over the stores stays, or makes a step of its own with the answer of the
stores. -/
theorem gate_of_step {event : Event}
    (hstep : step reg_user cfg reader backend event = some next) :
    next.gate = backend.gate ∨
      ∃ gateEvent, backend.gate.step cfg reader gateEvent = some next.gate := by
  cases event with
  | elapse =>
      obtain ⟨gate, hgate, rfl⟩ := Option.map_eq_some_iff.mp hstep
      exact .inr ⟨.elapse, hgate⟩
  | connection i event =>
      obtain ⟨-, -, hgate⟩ := step_connection hstep
      exact .inr ⟨.connection i event, hgate⟩
  | call i world =>
      obtain ⟨haborted, con, request, effect, rest, answer, stores, hget, hstage, -, rfl⟩ :=
        step_call hstep
      classical
      have hanswer : Function.update anyAnswer effect answer effect = answer :=
        Function.update_self _ _ _
      refine .inr ⟨.connection i (.proceed (Function.update anyAnswer effect answer)), ?_⟩
      have hcon : con.step cfg reader backend.gate.now
          (.proceed (Function.update anyAnswer effect answer))
            = some (con.perform request effect answer (rest answer)) := by
        rw [GateConnection.step, hstage]
        dsimp only
        rw [hanswer]
      simp [GateConnections.step, haborted, hget, hcon, GateConnection.Event.handler,
        GateConnection.Event.accepts, answered]
  | write key written =>
      obtain ⟨-, -, hgate, -⟩ := step_write hstep
      exact .inl hgate

/-! ### The call at a step -/

theorem callAt_of_handling {effect : HttpCall}
    {rest : effect.Answer → HttpProgram (Except HttpError Unit)}
    (hget : backend.gate.connections[i]? = some con)
    (hstage : con.stage = .handling request (.call effect rest)) :
    callAt (backend, .call i world) = some ⟨i, request, effect, world⟩ := by
  rw [callAt, hget, Option.bind_some, hstage]

theorem callAt_eq_some (hcall : callAt entry = some call) :
    entry.2 = .call call.i call.world ∧ ∃ con rest,
      entry.1.gate.connections[call.i]? = some con ∧
      con.stage = .handling call.request (.call call.effect rest) := by
  obtain ⟨backend, event⟩ := entry
  cases event with
  | call i world =>
      obtain ⟨con, hget, hcall⟩ := Option.bind_eq_some_iff.mp hcall
      cases hstage : con.stage with
      | handling request rest =>
          cases rest with
          | ret result => simp [hstage] at hcall
          | call effect rest =>
              simp only [hstage, Option.some.injEq] at hcall
              subst hcall
              exact ⟨rfl, con, rest, hget, hstage⟩
      | _ => simp [hstage] at hcall
  | _ => exact absurd hcall (by simp [callAt])

/-! ### What a connection has called -/

def answerAt (reg_user : RegUserProcedure) (cfg : ConfigMgr) (i : Nat) (entry : Backend × Event) :
    Option ((effect : HttpCall) × effect.Answer) :=
  (callAt entry).bind fun call =>
    if call.i = i then
      (call.world.serve reg_user cfg call.effect entry.1.stores).map fun result =>
        ⟨call.effect, result.1⟩
    else none

def traceOf (reg_user : RegUserProcedure) (cfg : ConfigMgr) (past : List (Backend × Event)) (i : Nat) :
    HttpTrace :=
  past.filterMap (answerAt reg_user cfg i)

theorem traceOf_concat (past : List (Backend × Event)) (entry : Backend × Event) (i : Nat) :
    traceOf reg_user cfg (past ++ [entry]) i
      = traceOf reg_user cfg past i ++ (answerAt reg_user cfg i entry).toList := by
  rw [traceOf, List.filterMap_append, ← traceOf]
  cases hanswer : answerAt reg_user cfg i entry <;> simp [hanswer]

theorem traceOf_quiet (hnone : callAt entry = none) (i : Nat) :
    traceOf reg_user cfg (past ++ [entry]) i = traceOf reg_user cfg past i := by
  rw [traceOf_concat, answerAt, hnone, Option.bind_none, Option.toList_none, List.append_nil]

/-- The trace of a connection is that of its calls in the run, each with its answer then. -/
theorem mem_traceOf {answered : (effect : HttpCall) × effect.Answer} :
    answered ∈ traceOf reg_user cfg past i ↔
      ∃ entry ∈ past, ∃ call, callAt entry = some call ∧ call.i = i ∧ ∃ answer stores,
        call.world.serve reg_user cfg call.effect entry.1.stores = some (answer, stores) ∧
        answered = ⟨call.effect, answer⟩ := by
  rw [traceOf, List.mem_filterMap]
  refine exists_congr fun entry => and_congr_right fun _ => ?_
  constructor
  · intro hanswer
    obtain ⟨call, hcall, hanswer⟩ := Option.bind_eq_some_iff.mp hanswer
    obtain ⟨hi, hanswer⟩ := Option.ite_none_right_eq_some.mp hanswer
    obtain ⟨⟨answer, stores⟩, hserve, rfl⟩ := Option.map_eq_some_iff.mp hanswer
    exact ⟨call, hcall, hi, answer, stores, hserve, rfl⟩
  · rintro ⟨call, hcall, rfl, answer, stores, hserve, rfl⟩
    rw [answerAt, hcall, Option.bind_some, if_pos rfl, hserve]
    rfl

/-- What the connection was answered, it has called at a step. -/
theorem exists_of_mem_traceOf {effect : HttpCall} {answer : effect.Answer}
    (hmem : ⟨effect, answer⟩ ∈ traceOf reg_user cfg past i) :
    ∃ before entry after request world stores, past = before ++ entry :: after ∧
      callAt entry = some ⟨i, request, effect, world⟩ ∧
      world.serve reg_user cfg effect entry.1.stores = some (answer, stores) := by
  obtain ⟨entry, hentry, ⟨j, request, effect', world⟩, hcall, rfl, answer', stores, hserve, hsame⟩ :=
    mem_traceOf.mp hmem
  obtain ⟨before, after, hsplit⟩ := List.append_of_mem hentry
  cases hsame
  exact ⟨before, entry, after, request, world, stores, hsplit, hcall, hserve⟩

/-- The requests of the calls are those of their connections, and what is left of a `HandleReq` goes on
in order. -/
structure Tracked (reg_user : RegUserProcedure) (cfg : ConfigMgr) (reader : JsonReader)
    (past : List (Backend × Event)) (backend : Backend) : Prop where
  known : ∀ entry ∈ past, ∀ call, callAt entry = some call → ∃ con,
    backend.gate.connections[call.i]? = some con ∧ con.request? = some call.request
  order : ∀ (i : Nat) (con : GateConnection) (request : HttpRequest)
    (rest : HttpProgram (Except HttpError Unit)), backend.gate.connections[i]? = some con →
    con.stage = .handling request rest →
    rest.wp record (fun _ _ => True) (InOrder cfg reader request) (fun _ _ => True)
      (traceOf reg_user cfg past i)

theorem Tracked.traceOf_eq_nil (htracked : Tracked reg_user cfg reader past backend)
    (hget : backend.gate.connections[i]? = some con) (hrequest : con.request? = none) :
    traceOf reg_user cfg past i = [] := by
  apply List.eq_nil_iff_forall_not_mem.mpr
  intro answered hmem
  obtain ⟨entry, hentry, call, hcall, rfl, -⟩ := mem_traceOf.mp hmem
  obtain ⟨other, hother, hknown⟩ := htracked.known entry hentry call hcall
  obtain rfl := Option.some.inj (hget.symm.trans hother)
  exact absurd (hrequest.symm.trans hknown) (by simp)

theorem Tracked.quiet (htracked : Tracked reg_user cfg reader past backend)
    (hnone : callAt entry = none) (hconnections : next.gate.connections = backend.gate.connections) :
    Tracked reg_user cfg reader (past ++ [entry]) next := by
  constructor
  · intro other hother call hcall
    rw [hconnections]
    rcases List.mem_append.mp hother with hother | hother
    · exact htracked.known other hother call hcall
    · rw [List.mem_singleton.mp hother, hnone] at hcall
      exact absurd hcall (by simp)
  · intro j con request rest hget hstage
    rw [hconnections] at hget
    rw [traceOf_quiet hnone]
    exact htracked.order j con request rest hget hstage

theorem getElem?_set_of_lt {connections : List GateConnection} {j : Nat} (hi : i < connections.length) :
    (connections.set i con)[j]? = if i = j then some con else connections[j]? := by
  rw [List.getElem?_set]
  by_cases hij : i = j
  · rw [if_pos hij, if_pos hij, if_pos hi]
  · rw [if_neg hij, if_neg hij]

/-- A step of a connection without a call makes it begin its handler or leaves it where it is. -/
theorem Tracked.connection {event : GateConnection.Event}
    (htracked : Tracked reg_user cfg reader past backend) (hnone : callAt entry = none)
    (hproceeds : event.proceeds = false)
    (hstep : backend.gate.step cfg reader (.connection i event) = some next.gate) :
    Tracked reg_user cfg reader (past ++ [entry]) next := by
  obtain ⟨con, con', added, hget, hcon', hconnections, hadded⟩ :=
    GateConnections.connections_of_step hstep
  obtain ⟨hi, -⟩ := List.getElem?_eq_some_iff.mp hget
  have hbefore {j : Nat} (hj : j < backend.gate.connections.length) :
      next.gate.connections[j]?
        = if i = j then some con' else backend.gate.connections[j]? := by
    rw [hconnections, List.getElem?_append_left (by rwa [List.length_set]), getElem?_set_of_lt hi]
  constructor
  · intro other hother call hcall
    rcases List.mem_append.mp hother with hother | hother
    · obtain ⟨held, hheld, hknown⟩ := htracked.known other hother call hcall
      obtain ⟨hj, -⟩ := List.getElem?_eq_some_iff.mp hheld
      rw [hbefore hj]
      by_cases hij : i = call.i
      · rw [if_pos hij]
        obtain rfl := Option.some.inj (hget.symm.trans (hij ▸ hheld))
        exact ⟨con', rfl, hcon'.request?_of hknown⟩
      · rw [if_neg hij]
        exact ⟨held, hheld, hknown⟩
    · rw [List.mem_singleton.mp hother, hnone] at hcall
      exact absurd hcall (by simp)
  · intro j held request rest hheld hstage
    rw [traceOf_quiet hnone]
    by_cases hj : j < backend.gate.connections.length
    · rw [hbefore hj] at hheld
      by_cases hij : i = j
      · rw [if_pos hij] at hheld
        obtain rfl := Option.some.inj hheld
        subst hij
        rcases hcon'.handling_cases hproceeds hstage with hstage | ⟨hrequest, rfl⟩
        · exact htracked.order i con request rest hget hstage
        · rw [htracked.traceOf_eq_nil hget hrequest]
          exact goesInOrder_HandleReq cfg reader request
      · rw [if_neg hij] at hheld
        exact htracked.order j held request rest hheld hstage
    · rw [hconnections, List.getElem?_append_right (by simpa using hj)] at hheld
      exact absurd ((hadded held (List.mem_of_getElem? hheld)).symm.trans hstage) (by simp)

/-- With a call and its answer the handler of the connection goes on, and no other. -/
theorem Tracked.performed {effect : HttpCall} {rest : effect.Answer → HttpProgram (Except HttpError Unit)}
    {answer : effect.Answer} {stores : Stores} (htracked : Tracked reg_user cfg reader past backend)
    (hget : backend.gate.connections[i]? = some con)
    (hstage : con.stage = .handling request (.call effect rest))
    (hserve : world.serve reg_user cfg effect backend.stores = some (answer, stores)) :
    Tracked reg_user cfg reader (past ++ [(backend, .call i world)])
      (backend.answered i (con.perform request effect answer (rest answer)) stores) := by
  have hcall : callAt (backend, .call i world) = some ⟨i, request, effect, world⟩ :=
    callAt_of_handling hget hstage
  have hanswer (j : Nat) : answerAt reg_user cfg j (backend, .call i world)
      = if i = j then some ⟨effect, answer⟩ else none := by
    rw [answerAt, hcall, Option.bind_some, hserve]
    rfl
  obtain ⟨hi, -⟩ := List.getElem?_eq_some_iff.mp hget
  have hafter (j : Nat) :
      (backend.gate.connections.set i (con.perform request effect answer (rest answer)))[j]?
        = if i = j then some (con.perform request effect answer (rest answer))
          else backend.gate.connections[j]? :=
    getElem?_set_of_lt hi
  have hrequest : (con.perform request effect answer (rest answer)).request? = some request := rfl
  constructor
  · intro other hother made hmade
    rw [answered, hafter]
    rcases List.mem_append.mp hother with hother | hother
    · obtain ⟨held, hheld, hknown⟩ := htracked.known other hother made hmade
      by_cases hij : i = made.i
      · rw [if_pos hij]
        obtain rfl := Option.some.inj (hget.symm.trans (hij ▸ hheld))
        have hbefore : con.request? = some request := by simp [request?, hstage]
        exact ⟨_, rfl, hbefore.symm.trans hknown ▸ hrequest⟩
      · rw [if_neg hij]
        exact ⟨held, hheld, hknown⟩
    · rw [List.mem_singleton.mp hother, hcall] at hmade
      obtain rfl := Option.some.inj hmade
      rw [if_pos rfl]
      exact ⟨_, rfl, hrequest⟩
  · intro j held request' rest' hheld hstage'
    rw [answered, hafter] at hheld
    rw [traceOf_concat, hanswer]
    by_cases hij : i = j
    · rw [if_pos hij] at hheld ⊢
      subst hij
      obtain rfl := Option.some.inj hheld
      obtain ⟨rfl, rfl⟩ := GateStage.handling.inj hstage'
      exact (htracked.order i con request _ hget hstage).2 answer trivial
    · rw [if_neg hij] at hheld ⊢
      rw [Option.toList_none, List.append_nil]
      exact htracked.order j held request' rest' hheld hstage'

/-- **One step.** -/
theorem Tracked.step {event : Event} (htracked : Tracked reg_user cfg reader past backend)
    (hstep : Backend.step reg_user cfg reader backend event = some next) :
    Tracked reg_user cfg reader (past ++ [(backend, event)]) next := by
  cases event with
  | elapse =>
      obtain rfl := step_elapse hstep
      exact htracked.quiet rfl rfl
  | connection i event =>
      obtain ⟨hproceeds, -, hgate⟩ := step_connection hstep
      exact htracked.connection rfl hproceeds hgate
  | call i world =>
      obtain ⟨-, con, request, effect, rest, answer, stores, hget, hstage, hserve, rfl⟩ :=
        step_call hstep
      exact htracked.performed hget hstage hserve
  | write key written =>
      obtain ⟨-, -, hgate, -⟩ := step_write hstep
      exact htracked.quiet rfl (by rw [hgate])

/-! ### Every run -/

section Run

variable {size : Nat} {stores : Stores} {start : Backend} {events : List Event}

theorem tracked_listen (hlisten : listen size stores = some start) :
    Tracked reg_user cfg reader [] start := by
  obtain ⟨gate, hgate, rfl⟩ := Option.map_eq_some_iff.mp hlisten
  obtain ⟨given, -, rfl⟩ := Option.map_eq_some_iff.mp hgate
  refine ⟨List.forall_mem_nil _, fun i con request rest hget hstage => ?_⟩
  have hmem := List.mem_of_getElem? hget
  rw [List.nil_append, List.mem_singleton] at hmem
  rw [hmem] at hstage
  exact absurd hstage (by simp [GateConnection.new])

theorem tracked_of_run (hlisten : listen size stores = some start)
    (hrun : run (Backend.step reg_user cfg reader) start events = some backend) :
    Tracked reg_user cfg reader (steps (Backend.step reg_user cfg reader) start events) backend :=
  run_steps (P := Tracked reg_user cfg reader) (tracked_listen hlisten)
    (fun _ _ _ _ htracked hstep => htracked.step hstep) hrun

/-- The gate over the stores makes a run of the gate, so what holds after every run of it holds here. -/
theorem gate_of_run (hrun : run (Backend.step reg_user cfg reader) start events = some backend) :
    ∃ gateEvents, run (GateConnections.step cfg reader) start.gate gateEvents = some backend.gate := by
  refine run_invariant (P := fun state => ∃ gateEvents,
    run (GateConnections.step cfg reader) start.gate gateEvents = some state.gate) ⟨[], rfl⟩ ?_ hrun
  rintro state event next ⟨gateEvents, hbefore⟩ hstep
  rcases gate_of_step hstep with hsame | ⟨gateEvent, hgate⟩
  · exact ⟨gateEvents, hsame ▸ hbefore⟩
  · exact ⟨gateEvents ++ [gateEvent], run_concat_eq_some.mpr ⟨state.gate, hbefore, hgate⟩⟩

/-- Every call of a run is due by the calls of its connection before it, which are for its request. -/
theorem due_of_run (hlisten : listen size stores = some start)
    (hrun : run (Backend.step reg_user cfg reader) start events = some backend) {event : Event}
    (hcall : callAt (backend, event) = some call) :
    Due cfg reader call.request
        (traceOf reg_user cfg (steps (Backend.step reg_user cfg reader) start events) call.i)
        call.effect ∧
      ∀ earlier ∈ steps (Backend.step reg_user cfg reader) start events, ∀ other,
        callAt earlier = some other → other.i = call.i → other.request = call.request := by
  have htracked := tracked_of_run hlisten hrun
  obtain ⟨-, con, rest, hget, hstage⟩ := callAt_eq_some hcall
  constructor
  · have hwp := (htracked.order call.i con call.request _ hget hstage).2
    have hinOrder := wp_here (hwp (anyAnswer call.effect) trivial)
    exact (preceded_concat.mp hinOrder).2
  · intro earlier hearlier other hother hi
    obtain ⟨held, hheld, hknown⟩ := htracked.known earlier hearlier other hother
    rw [hi, hget, Option.some.injEq] at hheld
    subst hheld
    have hrequest : con.request? = some call.request := by simp [request?, hstage]
    exact Option.some.inj (hknown.symm.trans hrequest)

/-- At an earlier step, the connection of the call has made this one for the same request. -/
def Made (before : List (Backend × Event)) (call : Call) (effect : HttpCall)
    (P : List (Backend × Event) → Backend × Event → List (Backend × Event) → Prop) : Prop :=
  ∃ past entry rest world, before = past ++ entry :: rest ∧
    callAt entry = some ⟨call.i, call.request, effect, world⟩ ∧ P past entry rest

/-- What the connection has called and been answered, it has called at an earlier step. -/
theorem exists_made (hlisten : listen size stores = some start)
    (hrun : run (Backend.step reg_user cfg reader) start events = some backend) {event : Event}
    (hcall : callAt (backend, event) = some call) {effect : HttpCall} {answer : effect.Answer}
    (hmem : ⟨effect, answer⟩
      ∈ traceOf reg_user cfg (steps (Backend.step reg_user cfg reader) start events) call.i) :
    ∃ past entry rest world after,
      steps (Backend.step reg_user cfg reader) start events = past ++ entry :: rest ∧
      callAt entry = some ⟨call.i, call.request, effect, world⟩ ∧
      world.serve reg_user cfg effect entry.1.stores = some (answer, after) := by
  obtain ⟨past, entry, rest, request, world, after, hsplit, hmade, hserve⟩ :=
    exists_of_mem_traceOf hmem
  obtain ⟨-, hsame⟩ := due_of_run hlisten hrun hcall
  obtain rfl : request = call.request := by
    refine hsame entry ?_ _ hmade rfl
    rw [hsplit]
    exact List.mem_append_right _ List.mem_cons_self
  exact ⟨past, entry, rest, world, after, hsplit, hmade, hserve⟩

end Run

end Backend

end QuickChat
