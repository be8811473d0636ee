import QuickChat.Proof.GateConnections

/-!
# The deadline counts from the accept before

The timer of a connection is set when the connection is made, and that is when the client before it
has been accepted. So a client that comes a minute after the one before finds its deadline passed:
whatever it asks for, and however its request is answered, the socket can be closed before the
response has been written, and not a second passes in between.
-/

namespace QuickChat

open Program Machine GateConnection

namespace GateConnections

variable {cfg : ConfigMgr} {reader : JsonReader} {size i : Nat} {gate next start : GateConnections}
  {con con' : GateConnection} {event : GateConnection.Event} {request : HttpRequest}

/-! ### Steps of one connection -/

/-- No assertion has failed for another connection, and the context that the connection at the index
is on is not taken by another. -/
structure Clear (gate : GateConnections) (i service : Nat) : Prop where
  bound : i < gate.connections.length
  aborted : ∀ (j : Nat) (other : GateConnection), gate.connections[j]? = some other → j ≠ i →
    other.aborted = false
  free : ∀ (j : Nat) (other : GateConnection), gate.connections[j]? = some other → j ≠ i →
    other.service = service → other.handling = false

theorem any_put {p : GateConnection → Bool} (hcon : p con = false)
    (hothers : ∀ (j : Nat) (other : GateConnection), gate.connections[j]? = some other → j ≠ i →
      p other = false) : (gate.put i con).connections.any p = false := by
  refine List.any_eq_false.mpr fun other hother => ?_
  obtain ⟨j, hget⟩ := List.getElem?_of_mem hother
  rw [put, List.getElem?_set] at hget
  by_cases hj : i = j
  · rw [if_pos hj] at hget
    obtain ⟨-, hget⟩ := Option.ite_none_right_eq_some.mp hget
    obtain rfl := Option.some.inj hget
    simp [hcon]
  · rw [if_neg hj] at hget
    simp [hothers j other hget (Ne.symm hj)]

theorem put_put : (gate.put i con).put i con' = gate.put i con' := by
  rw [put, put, put, List.set_set]

theorem getElem?_put (hbound : i < gate.connections.length) :
    (gate.put i con).connections[i]? = some con := List.getElem?_set_self hbound

/-- The connection takes a step of its own. -/
theorem step_put (hclear : Clear gate i con.service) (haborted : con.aborted = false)
    (hhandling : event.handler = true → con.handling = false) (haccepts : event.accepts = false)
    (hcon : con.step cfg reader gate.now event = some con') :
    step cfg reader (gate.put i con) (.connection i event) = some (gate.put i con') := by
  have hnone : (gate.put i con).aborted = false := any_put haborted hclear.aborted
  have hfree : ¬ (event.handler = true ∧ (gate.put i con).busy con.service = true) := by
    rintro ⟨hhandler, hbusy⟩
    have hnot : (gate.put i con).busy con.service = false := by
      refine any_put (by simp [hhandling hhandler]) fun j other hget hj => ?_
      by_cases hservice : other.service = con.service
      · simp [hclear.free j other hget hj hservice]
      · simp [hservice]
    exact absurd (hnot.symm.trans hbusy) Bool.false_ne_true
  have hnow : (gate.put i con).now = gate.now := rfl
  simp only [step, hnone, getElem?_put hclear.bound, Option.bind_some, if_neg hfree, hnow, hcon,
    haccepts]
  exact congrArg some put_put

variable (cfg reader) in
/-- The calls of `HandleReq` are made in a row. -/
theorem exists_run_of_performs {rest : HttpProgram (Except HttpError Unit)} {trace : HttpTrace}
    {result : Except HttpError Unit} (htrace : rest.Performs trace result)
    (hclear : Clear gate i con.service) (hstage : con.stage = .handling request rest)
    (hordered : Ordered gate.now con) (hwrite : con.write = none ∨ con.write = some .writing) :
    ∃ events con', (∀ event ∈ events, event ≠ Event.elapse) ∧
      run (step cfg reader) (gate.put i con) events = some (gate.put i con') ∧
      con'.stage = .handling request (.ret result) ∧ con'.service = con.service ∧
      con'.deadline_ = con.deadline_ ∧ con'.exchange
        = trace.foldl (fun exchange entry => exchange.observe entry.1 entry.2) con.exchange ∧
      Ordered gate.now con' ∧ (con'.write = none ∨ con'.write = some .writing) := by
  classical
  induction htrace generalizing con with
  | ret value => exact ⟨[], con, by simp, rfl, hstage, rfl, rfl, rfl, hordered, hwrite⟩
  | @call effect next answer trace value _ ih =>
      let after := con.perform request effect answer (next answer)
      have hafter : Clear gate i after.service := hclear
      have hcon : con.step cfg reader gate.now (.proceed (Function.update anyAnswer effect answer))
          = some after := by
        simp only [GateConnection.step, hstage, Function.update_self]
        rfl
      have hstep : step cfg reader (gate.put i con)
          (.connection i (.proceed (Function.update anyAnswer effect answer)))
            = some (gate.put i after) :=
        step_put hclear (by simp [GateConnection.aborted, hstage])
          (fun hhandler => absurd hhandler Bool.false_ne_true) rfl hcon
      have hwrite' : after.write = none ∨ after.write = some .writing := by
        rcases perform_cases con request effect answer (next answer) with ⟨hwriting, -⟩ | ⟨hsame, -⟩
        · exact .inr hwriting
        · exact hsame ▸ hwrite
      obtain ⟨events, con', helapse, hrun, hstage', hkept⟩ :=
        ih hafter rfl (hordered.perform hstage) hwrite'
      refine ⟨.connection i (.proceed (Function.update anyAnswer effect answer)) :: events, con',
        ?_, ?_, hstage', hkept⟩
      · exact List.forall_mem_cons.mpr ⟨by simp, helapse⟩
      · rw [run_cons, hstep, Option.bind_some, hrun]

/-- The handler of the read ends, the wait is over at once, the socket is closed, and the write
fails. -/
def closing (i : Nat) : List Event :=
  [.connection i .finish, .connection i .expire, .connection i .HandleWait,
    .connection i (.write false), .connection i .HandleWrite]

variable (cfg reader) in
/-- With the deadline past, the wait is over at once, and its handler closes the socket before the
write is done. -/
theorem run_closing (hclear : Clear gate i con.service)
    (hstage : con.stage = .handling request (.ret (.ok ()))) (hwrite : con.write = some .writing)
    (hdeadline : con.deadline_ ≤ gate.now) :
    ∃ con', run (step cfg reader) (gate.put i con) (closing i) = some (gate.put i con') ∧
      con'.request? = some request ∧ con'.exchange = con.exchange ∧ con'.closed = true ∧
      con'.write = some (.handled false) := by
  let handled := con.CheckDeadline request
  let expired := { handled with wait := some .expired }
  let cut := { expired with wait := some .handled, closed := true }
  let failed := { cut with write := some (.written false) }
  have hfinish : step cfg reader (gate.put i con) (.connection i .finish) = some (gate.put i handled) :=
    step_put hclear (by simp [GateConnection.aborted, hstage])
      (fun hhandler => absurd hhandler Bool.false_ne_true) rfl
      (by simp only [GateConnection.step, hstage]; rfl)
  have hexpire : step cfg reader (gate.put i handled) (.connection i .expire)
      = some (gate.put i expired) :=
    step_put hclear rfl (fun hhandler => absurd hhandler Bool.false_ne_true) rfl
      (if_pos ⟨rfl, hdeadline⟩)
  have hwait : step cfg reader (gate.put i expired) (.connection i .HandleWait)
      = some (gate.put i cut) := step_put hclear rfl (fun _ => rfl) rfl rfl
  have hfail : step cfg reader (gate.put i cut) (.connection i (.write false))
      = some (gate.put i failed) :=
    step_put hclear rfl (fun hhandler => absurd hhandler Bool.false_ne_true) rfl
      (if_pos ⟨hwrite, fun hcomplete => absurd hcomplete Bool.false_ne_true⟩)
  have hover : step cfg reader (gate.put i failed) (.connection i .HandleWrite)
      = some (gate.put i (failed.HandleWrite false)) := step_put hclear rfl (fun _ => rfl) rfl rfl
  refine ⟨failed.HandleWrite false, ?_, rfl, rfl, rfl, rfl⟩
  simp only [closing, run_cons, hfinish, hexpire, hwait, hfail, hover, Option.bind_some, run_nil]

/-! ### A minute without a client -/

/-- While no accept completes, the connections and their deadlines stay. -/
theorem deadlines_of_run {quiet : List Event} (hquiet : run (step cfg reader) gate quiet = some next)
    (hnone : ∀ i ok, Event.connection i (.accept ok) ∉ quiet) :
    next.connections.map deadline_ = gate.connections.map deadline_ := by
  induction quiet generalizing gate with
  | nil =>
      obtain rfl := Option.some.inj hquiet
      rfl
  | cons event quiet ih =>
      obtain ⟨middle, hstep, hrest⟩ := Option.bind_eq_some_iff.mp hquiet
      rw [ih hrest fun i ok hmem => hnone i ok (List.mem_cons_of_mem _ hmem)]
      cases event with
      | elapse =>
          obtain ⟨-, rfl⟩ := step_elapse hstep
          rfl
      | connection i event =>
          obtain ⟨-, con, con', hget, -, hcon', hnext⟩ := step_connection hstep
          rcases hnext with ⟨-, rfl⟩ | ⟨haccepts, -⟩
          · obtain ⟨hbound, rfl⟩ := List.getElem?_eq_some_iff.mp hget
            rw [put, List.map_set, hcon'.deadline_eq, ← List.map_set, List.set_getElem_self]
          · cases event with
            | accept ok => exact absurd List.mem_cons_self (hnone i ok)
            | _ => exact absurd haccepts Bool.false_ne_true

/-- The connection that is made when an accept completes has a minute from then. -/
theorem deadline_of_accept {j : Nat} {ok : Bool}
    (hstep : step cfg reader gate (.connection j (.accept ok)) = some next) :
    next.now = gate.now ∧
      ∃ deadlines, next.connections.map deadline_ = deadlines ++ [gate.now + 60] := by
  obtain ⟨-, con, con', hget, -, hcon', hnext⟩ := step_connection hstep
  rcases hnext with ⟨haccepts, -⟩ | ⟨-, hstart⟩
  · exact absurd rfl (Bool.eq_false_iff.mp haccepts)
  · obtain ⟨given, -, rfl⟩ := Option.map_eq_some_iff.mp hstart
    exact ⟨rfl, _, List.map_append⟩

def opening (i : Nat) (request : HttpRequest) : List Event :=
  [.connection i (.accept true), .connection i (.read (some request))]

/-- The accept and the read take no time, and the deadline stays where the accept before it put it. -/
theorem exists_run_reading (hplaced : Placed cfg reader size gate) (hsize : 0 < size)
    (haborted : gate.aborted = false) (hget : gate.connections[i]? = some con)
    (hstage : con.stage = .accepting) (hfree : gate.busy con.service = false) (request : HttpRequest) :
    ∃ served : GateConnections, served.now = gate.now ∧ Clear served i con.service ∧
      run (step cfg reader) gate (opening i request) = some (served.put i { con with
        stage := .handling request (HttpConnection.HandleReq cfg reader (.new request)).run }) := by
  obtain ⟨hbound, -⟩ := List.getElem?_eq_some_iff.mp hget
  let reading := { con with stage := .reading }
  have haccept : con.step cfg reader gate.now (.accept true) = some reading := by
    simp only [GateConnection.step, hstage]
    rfl
  have hnot : (GateConnection.Event.accept true).handler = true → gate.busy con.service = false :=
    fun hhandler => absurd hhandler Bool.false_ne_true
  obtain ⟨served, hserved⟩ : ∃ served, (gate.put i reading).Start = some served :=
    ⟨_, start_eq_some hsize (placed_put hplaced hget hnot (stepped_of_step haccept))⟩
  have hstep : step cfg reader gate (.connection i (.accept true)) = some served := by
    simp only [step, haborted, hget, Option.bind_some, haccept]
    exact hserved
  obtain ⟨given, -, rfl⟩ := Option.map_eq_some_iff.mp hserved
  generalize hnext : ({ gate.put i reading with
    pool := given.2
    connections := (gate.put i reading).connections ++ [new given.1 (gate.put i reading).now] } :
      GateConnections) = served at hstep
  have hconnections : served.connections = gate.connections.set i reading ++ [new given.1 gate.now] :=
    hnext ▸ rfl
  have hlength : i < (gate.connections.set i reading).length := by rwa [List.length_set]
  have hself : served.put i reading = served := by
    have hset : served.connections.set i reading = served.connections := by
      rw [hconnections, List.set_append_left _ _ hlength, List.set_set]
    rw [put, hset]
  have hothers {j : Nat} {other : GateConnection} (hother : served.connections[j]? = some other)
      (hj : j ≠ i) : other ∈ gate.connections ∨ other.stage = .accepting := by
    rw [hconnections] at hother
    by_cases hlt : j < (gate.connections.set i reading).length
    · rw [List.getElem?_append_left hlt, List.getElem?_set_ne hj.symm] at hother
      exact .inl (List.mem_of_getElem? hother)
    · rw [List.getElem?_append_right (Nat.le_of_not_lt hlt)] at hother
      rw [List.mem_singleton.mp (List.mem_of_getElem? hother)]
      exact .inr rfl
  have hclear : Clear served i con.service := by
    refine ⟨?_, fun j other hother hj => ?_, fun j other hother hj hservice => ?_⟩
    · rw [hconnections, List.length_append]
      exact Nat.lt_add_right _ hlength
    · rcases hothers hother hj with hmem | hnew
      · exact eq_false_of_ne_true (List.any_eq_false.mp haborted other hmem)
      · simp [GateConnection.aborted, hnew]
    · rcases hothers hother hj with hmem | hnew
      · have hbusy := List.any_eq_false.mp hfree other hmem
        simpa [hservice] using hbusy
      · simp [handling, hnew]
  have hread : step cfg reader served (.connection i (.read (some request))) = some (served.put i
      { con with
        stage := .handling request (HttpConnection.HandleReq cfg reader (.new request)).run }) := by
    have hreading : step cfg reader (served.put i reading) (.connection i (.read (some request)))
        = some (served.put i { reading with
          stage := .handling request (HttpConnection.HandleReq cfg reader (.new request)).run }) :=
      step_put hclear rfl (fun _ => rfl) rfl rfl
    rwa [hself] at hreading
  refine ⟨served, hnext ▸ rfl, hclear, ?_⟩
  rw [opening, run_cons, hstep, Option.bind_some, run_cons, hread, Option.bind_some, run_nil]

/-- The deadline of the newest connection, a minute after the accept before. -/
theorem deadline_of_quiet {before middle : GateConnections} {j : Nat} {ok : Bool} {quiet : List Event}
    (haccept : step cfg reader before (.connection j (.accept ok)) = some middle)
    (hquiet : run (step cfg reader) middle quiet = some gate)
    (hnone : ∀ i ok, Event.connection i (.accept ok) ∉ quiet) (hget : gate.connections[i]? = some con)
    (hlast : i + 1 = gate.connections.length) : con.deadline_ = middle.now + 60 := by
  obtain ⟨hnow, deadlines, hmiddle⟩ := deadline_of_accept haccept
  have hdeadlines := (deadlines_of_run hquiet hnone).trans hmiddle
  have hlength : i = deadlines.length := by
    have hcount := congrArg List.length hdeadlines
    rw [List.length_map, List.length_append, List.length_singleton, ← hlast] at hcount
    omega
  have hentry : (gate.connections.map deadline_)[i]? = some con.deadline_ := by
    rw [List.getElem?_map, hget]
    rfl
  rw [hdeadlines, hlength, List.getElem?_concat_length] at hentry
  rw [hnow]
  exact (Option.some.inj hentry).symm

/-- **A minute without a client.** Wherever the gate is a minute after an accept, no accept has
completed since and no assertion has failed: for the next client, whatever it asks for, and whatever
the calls of `HandleReq` come to, there is a way on which they come to that, its socket is closed
before the response has been written, and no second passes. -/
theorem cut_after_minute {before middle : GateConnections} {events quiet : List Event} {j : Nat}
    {ok : Bool} {trace : HttpTrace} (hlisten : listen size = some start)
    (hrun : run (step cfg reader) start events = some before)
    (haccept : step cfg reader before (.connection j (.accept ok)) = some middle)
    (hquiet : run (step cfg reader) middle quiet = some gate)
    (hnone : ∀ i ok, Event.connection i (.accept ok) ∉ quiet) (hminute : middle.now + 60 ≤ gate.now)
    (haborted : gate.aborted = false)
    (hfree : ∀ con ∈ gate.connections, con.stage = .accepting → gate.busy con.service = false)
    (htrace : (HttpConnection.HandleReq cfg reader (.new request)).run.Performs trace (.ok ()))
    (hreply : (HttpExchange.after trace).written ≠ []) :
    ∃ rest finish con, (∀ event ∈ rest, event ≠ Event.elapse) ∧
      run (step cfg reader) gate rest = some finish ∧
      finish.connections[gate.connections.length - 1]? = some con ∧ con.request? = some request ∧
      con.exchange = HttpExchange.after trace ∧ con.closed = true ∧
      con.write = some (.handled false) := by
  have hsize := size_pos_of_listen hlisten
  have hall : run (step cfg reader) start (events ++ .connection j (.accept ok) :: quiet)
      = some gate := by
    rw [run_append, hrun, Option.bind_some, run_cons, haccept, Option.bind_some, hquiet]
  obtain ⟨hplaced, hlast⟩ := placed_of_run hlisten hall
  obtain ⟨last, hend⟩ : ∃ last, last + 1 = gate.connections.length :=
    ⟨_, Nat.sub_add_cancel (List.length_pos_iff.mpr hlast.nonempty)⟩
  rw [← hend, Nat.add_sub_cancel]
  obtain ⟨con, hget⟩ : ∃ con, gate.connections[last]? = some con :=
    ⟨_, List.getElem?_eq_getElem (by omega)⟩
  have hmem := List.mem_of_getElem? hget
  have hstage := (hlast.stage _ con hget).mpr hend
  have hkept := hplaced.kept con hmem
  obtain ⟨served, hnow, hclear, hreading⟩ := exists_run_reading hplaced hsize haborted hget hstage
    (hfree con hmem hstage) request
  let asked : GateConnection :=
    { con with stage := .handling request (HttpConnection.HandleReq cfg reader (.new request)).run }
  have hasked : Clear served last asked.service := hclear
  have hordered : Ordered served.now asked := by
    rw [hnow]
    exact hkept.2.goesOn (fun request => by simp [hstage]) nofun
  have hinit : con.exchange = .init := by
    have hstands := hkept.1
    rwa [hstage] at hstands
  have hunwritten : asked.write = none := hordered.write.mpr (by simp [asked, hinit, HttpExchange.init])
  obtain ⟨calls, answered, hcalls, hanswering, hstage', hservice, hdeadline, hexchange, hordered',
    hwrite⟩ := exists_run_of_performs cfg reader htrace hasked rfl hordered (.inl hunwritten)
  have hwriting : answered.write = some .writing := by
    refine hwrite.resolve_left fun hwrite => hreply ?_
    have hwritten := hordered'.write.mp hwrite
    rwa [hexchange, hinit] at hwritten
  have hover : answered.deadline_ ≤ served.now := by
    rw [hdeadline, hnow, deadline_of_quiet haccept hquiet hnone hget hend]
    exact hminute
  obtain ⟨cut, hclosing, hrequest, hsame, hclosed, hfailed⟩ :=
    run_closing cfg reader (hservice ▸ hasked) hstage' hwriting hover
  have hafter : cut.exchange = HttpExchange.after trace := by
    rw [hsame, hexchange, HttpExchange.after, ← hinit]
  refine ⟨opening last request ++ (calls ++ closing last), served.put last cut, cut,
    fun event hevent => ?_, ?_, getElem?_put hclear.bound, hrequest, hafter, hclosed, hfailed⟩
  · rcases List.mem_append.mp hevent with hevent | hevent
    · simp only [opening, List.mem_cons, List.not_mem_nil, or_false] at hevent
      rcases hevent with rfl | rfl <;> simp
    · rcases List.mem_append.mp hevent with hevent | hevent
      · exact hcalls event hevent
      · simp only [closing, List.mem_cons, List.not_mem_nil, or_false] at hevent
        rcases hevent with rfl | rfl | rfl | rfl | rfl <;> simp
  · rw [run_append, hreading, Option.bind_some, run_append, hanswering, Option.bind_some, hclosing]

def quietMinute : GateConnections :=
  ⟨.new 1, 60, [{ new 0 0 with stage := .reading }, new 0 0]⟩

theorem cut_after_minute_get_test :
    ∃ rest finish con, (∀ event ∈ rest, event ≠ Event.elapse) ∧
      run (step ⟨[]⟩ fun _ => .ok none) quietMinute rest = some finish ∧
      finish.connections[1]? = some con ∧
      con.request? = some ⟨.get, Text.ascii "/get_test", 11, []⟩ ∧
      con.exchange.written.length = 1 ∧ con.closed = true ∧ con.write = some (.handled false) := by
  have hlisten : listen 1 = some ⟨.new 1, 0, [new 0 0]⟩ := rfl
  have haccept : step ⟨[]⟩ (fun _ => .ok none) ⟨.new 1, 0, [new 0 0]⟩ (.connection 0 (.accept true))
      = some { quietMinute with now := 0 } := rfl
  have hquiet : run (step ⟨[]⟩ fun _ => .ok none) { quietMinute with now := 0 }
      (List.replicate 60 .elapse) = some quietMinute := rfl
  have htrace : (HttpConnection.HandleReq ⟨[]⟩ (fun _ => .ok none)
      (.new ⟨.get, Text.ascii "/get_test", 11, []⟩)).run.Performs
      [⟨.version 11, ()⟩, ⟨.keep_alive false, ()⟩, ⟨.write (Text.ascii "receieve get_test req\n"), ()⟩,
        ⟨.iterate [], HttpCall.listed []⟩, ⟨.result .ok, ()⟩, ⟨.set .server "GateServer", ()⟩,
        ⟨.WriteResponse, ()⟩]
      (.ok ()) := .call (.call (.call (.call (.call (.call (.call (.ret _)))))))
  have hnone (i : Nat) (ok : Bool) :
      Event.connection i (.accept ok) ∉ List.replicate 60 Event.elapse := by
    intro hmem
    exact absurd (List.eq_of_mem_replicate hmem) (by simp)
  have hfree : ∀ con ∈ quietMinute.connections, con.stage = .accepting →
      quietMinute.busy con.service = false := by
    intro con hcon _
    simp only [quietMinute, List.mem_cons, List.not_mem_nil, or_false] at hcon
    rcases hcon with rfl | rfl <;> rfl
  obtain ⟨rest, finish, con, helapse, hrest, hget, hrequest, hexchange, hcut⟩ :=
    cut_after_minute hlisten (run_nil _) haccept hquiet hnone (Nat.le_refl 60) rfl hfree htrace
      (List.cons_ne_nil _ _)
  exact ⟨rest, finish, con, helapse, hrest, hget, hrequest, by rw [hexchange]; rfl, hcut⟩

end GateConnections

end QuickChat
