import QuickChat.Lib.Progress
import QuickChat.Lib.Ranked
import QuickChat.Proof.GateConnections

/-!
# Which connections are released

A connection is at a stage of its read, and what is left to it at that stage are the handlers of its
write and of its wait, and the seconds until its deadline. A handler of the read makes finitely many
calls, so the stage goes on only finitely often, and between two stages less is left with every step.

So once no accept completes, nothing goes on for ever, on whatever way the handlers take turns:
either an assertion fails, or no handler is to come for any connection but the newest and those that
are reading. Nothing ends the read of a client that does not send.
-/

namespace QuickChat

open Program Ranked

namespace GateStage

/-- The stages that a step leads to, but for the accept. -/
inductive Earlier : GateStage → GateStage → Prop where
  | unread : Earlier .unread .reading
  | read (request : HttpRequest) (rest : HttpProgram (Except HttpError Unit)) :
      Earlier (.handling request rest) .reading
  | proceed (request : HttpRequest) {rest rest' : HttpProgram (Except HttpError Unit)}
      (hcontinues : Continues rest' rest) : Earlier (.handling request rest') (.handling request rest)
  | handled (request : HttpRequest) (rest : HttpProgram (Except HttpError Unit)) :
      Earlier (.handled request) (.handling request rest)
  | raised (request : HttpRequest) (e : HttpError) (rest : HttpProgram (Except HttpError Unit)) :
      Earlier (.raised request e) (.handling request rest)

theorem acc_handling (request : HttpRequest) (rest : HttpProgram (Except HttpError Unit)) :
    Acc Earlier (.handling request rest) := by
  induction rest using wellFounded_continues.induction with
  | _ rest ih =>
      constructor
      intro stage hearlier
      cases hearlier with
      | proceed _ hcontinues => exact ih _ hcontinues
      | handled => exact ⟨_, nofun⟩
      | raised => exact ⟨_, nofun⟩

/-- A handler is a tree of calls, so a stage cannot go on for ever. -/
theorem wellFounded_earlier : WellFounded Earlier := by
  constructor
  intro stage
  cases stage with
  | reading =>
      constructor
      intro stage hearlier
      cases hearlier with
      | unread => exact ⟨_, nofun⟩
      | read request rest => exact acc_handling request rest
  | handling request rest => exact acc_handling request rest
  | _ => exact ⟨_, nofun⟩

end GateStage

/-! ### What is left -/

namespace GateConnection

variable {cfg : ConfigMgr} {reader : JsonReader} {now : Nat} {con next : GateConnection} {event : Event}

def writeLeft : Option WriteOp → Nat
  | some .writing => 2
  | some (.written _) => 1
  | _ => 0

def waitLeft : Option WaitOp → Nat
  | some .waiting => 2
  | some .expired => 1
  | some .cancelled => 1
  | _ => 0

def left (now : Nat) (con : GateConnection) : Nat :=
  writeLeft con.write + waitLeft con.wait + (con.deadline_ - now)

theorem waitLeft_HandleWrite (con : GateConnection) (complete : Bool) :
    waitLeft (con.HandleWrite complete).wait ≤ waitLeft con.wait := by
  unfold HandleWrite
  by_cases hwait : con.wait = some .waiting
  · rw [if_pos hwait, hwait]
    exact Nat.le_succ 1
  · rw [if_neg hwait]

theorem released_of_left {con : GateConnection} (haccepting : con.stage ≠ .accepting)
    (hreading : con.stage ≠ .reading) (hhandling : con.handling = false)
    (hwrite : writeLeft con.write = 0) (hwait : waitLeft con.wait = 0) : con.Released := by
  refine ⟨?_, ?_, ?_⟩
  · cases hstage : con.stage with
    | accepting => exact absurd hstage haccepting
    | reading => exact absurd hstage hreading
    | handling request rest => simp [handling, hstage] at hhandling
    | _ => exact trivial
  · cases hcase : con.write with
    | none => exact trivial
    | some write =>
        cases write with
        | handled complete => exact trivial
        | _ => simp [hcase, writeLeft] at hwrite
  · cases hcase : con.wait with
    | none => exact trivial
    | some wait =>
        cases wait with
        | handled => exact trivial
        | _ => simp [hcase, waitLeft] at hwait

/-- Every step but the accept takes the stage on, or keeps it and leaves less. -/
theorem Stepped.less (hstep : Stepped cfg reader now con event next)
    (haccepts : event.accepts = false) :
    GateStage.Earlier next.stage con.stage ∨
      next.stage = con.stage ∧ left now next < left now con := by
  cases hstep with
  | accept ok hstage => exact absurd rfl (Bool.eq_false_iff.mp haccepts)
  | unread hstage => exact .inl (hstage ▸ .unread)
  | read request hstage => exact .inl (hstage ▸ .read request _)
  | proceed answer hstage => exact .inl (hstage ▸ .proceed _ (.intro _ _ _))
  | returned hstage => exact .inl (hstage ▸ .handled _ _)
  | raised hstage => exact .inl (hstage ▸ .raised _ _ _)
  | write complete hwrite hclosed =>
      refine .inr ⟨rfl, ?_⟩
      simp only [left, hwrite, writeLeft]
      omega
  | @HandleWrite complete hwrite =>
      refine .inr ⟨rfl, ?_⟩
      have hwait := waitLeft_HandleWrite con complete
      have hover : writeLeft (con.HandleWrite complete).write = 0 := rfl
      have hdeadline : (con.HandleWrite complete).deadline_ = con.deadline_ := rfl
      rw [left, left, hover, hdeadline, hwrite, writeLeft]
      omega
  | expire hwait hdeadline =>
      refine .inr ⟨rfl, ?_⟩
      simp only [left, hwait, waitLeft]
      omega
  | expired hwait =>
      refine .inr ⟨rfl, ?_⟩
      simp only [left, hwait, waitLeft]
      omega
  | cancelled hwait =>
      refine .inr ⟨rfl, ?_⟩
      simp only [left, hwait, waitLeft]
      omega

end GateConnection

/-! ### What can happen next -/

namespace GateConnections

open Machine GateConnection

variable {cfg : ConfigMgr} {reader : JsonReader} {size i : Nat} {gate next : GateConnections}
  {con con' : GateConnection}

/-- No accept completes, and seconds are counted as long as some deadline is ahead. -/
def Settles (gate : GateConnections) : Event → Prop
  | .elapse => ∃ con ∈ gate.connections, gate.now < con.deadline_
  | .connection _ event => event.accepts = false

instance (gate : GateConnections) : (event : Event) → Decidable (gate.Settles event)
  | .elapse => inferInstanceAs (Decidable (∃ con ∈ gate.connections, gate.now < con.deadline_))
  | .connection _ event => inferInstanceAs (Decidable (event.accepts = false))

abbrev settle (cfg : ConfigMgr) (reader : JsonReader) :
    GateConnections → Event → Option GateConnections :=
  guarded Settles (step cfg reader)

theorem settle_connection (event : GateConnection.Event) (haborted : gate.aborted = false)
    (hget : gate.connections[i]? = some con)
    (hfree : event.handler = true → gate.busy con.service = false)
    (haccepts : event.accepts = false) (hcon : (con.step cfg reader gate.now event).isSome) :
    ∃ event next, settle cfg reader gate event = some next := by
  obtain ⟨con', hcon⟩ := Option.isSome_iff_exists.mp hcon
  refine ⟨.connection i event, gate.put i con', guarded_eq_some.mpr ⟨haccepts, ?_⟩⟩
  have hnot : ¬ (event.handler = true ∧ gate.busy con.service = true) := by
    rintro ⟨hhandler, hbusy⟩
    rw [hfree hhandler] at hbusy
    exact absurd hbusy Bool.false_ne_true
  simp only [step, haborted, hget, Option.bind_some, if_neg hnot, hcon, haccepts]
  rfl

/-- A handler of a read that is running goes on. -/
theorem exists_settle_of_handling (haborted : gate.aborted = false)
    (hget : gate.connections[i]? = some con) (hhandling : con.handling = true) :
    ∃ event next, settle cfg reader gate event = some next := by
  cases hstage : con.stage with
  | handling request rest =>
      cases rest with
      | call effect rest =>
          refine settle_connection (.proceed anyAnswer) haborted hget
            (fun hhandler => absurd hhandler Bool.false_ne_true) rfl ?_
          simp [GateConnection.step, hstage]
      | ret result =>
          cases result with
          | ok value =>
              refine settle_connection .finish haborted hget
                (fun hhandler => absurd hhandler Bool.false_ne_true) rfl ?_
              simp [GateConnection.step, hstage]
          | error e =>
              refine settle_connection .finish haborted hget
                (fun hhandler => absurd hhandler Bool.false_ne_true) rfl ?_
              simp [GateConnection.step, hstage]
  | _ => simp [handling, hstage] at hhandling

/-- Where no handler is running, one that is to come runs, or its operation completes, or a second
passes. -/
theorem exists_settle_of_pending (haborted : gate.aborted = false)
    (hidle : ∀ con ∈ gate.connections, con.handling = false) (hget : gate.connections[i]? = some con)
    (hpending : writeLeft con.write ≠ 0 ∨ waitLeft con.wait ≠ 0) :
    ∃ event next, settle cfg reader gate event = some next := by
  have hfree : gate.busy con.service = false := by
    refine List.any_eq_false.mpr fun other hother => ?_
    simp [hidle other hother]
  rcases hpending with hwrite | hwait
  · cases hcase : con.write with
    | none => exact absurd (by rw [hcase]; rfl) hwrite
    | some write =>
        cases write with
        | writing =>
            refine settle_connection (.write false) haborted hget (fun _ => hfree) rfl ?_
            simp [GateConnection.step, hcase]
        | written complete =>
            refine settle_connection .HandleWrite haborted hget (fun _ => hfree) rfl ?_
            simp [GateConnection.step, hcase]
        | handled complete => exact absurd (by rw [hcase]; rfl) hwrite
  · cases hcase : con.wait with
    | none => exact absurd (by rw [hcase]; rfl) hwait
    | some wait =>
        cases wait with
        | waiting =>
            by_cases hdeadline : con.deadline_ ≤ gate.now
            · refine settle_connection .expire haborted hget (fun _ => hfree) rfl ?_
              simp [GateConnection.step, hcase, hdeadline]
            · refine ⟨.elapse, { gate with now := gate.now + 1 }, guarded_eq_some.mpr ⟨?_, ?_⟩⟩
              · exact ⟨con, List.mem_of_getElem? hget, Nat.lt_of_not_le hdeadline⟩
              · simp [step, haborted]
        | expired =>
            refine settle_connection .HandleWait haborted hget (fun _ => hfree) rfl ?_
            simp [GateConnection.step, hcase]
        | cancelled =>
            refine settle_connection .HandleWait haborted hget (fun _ => hfree) rfl ?_
            simp [GateConnection.step, hcase]
        | handled => exact absurd (by rw [hcase]; rfl) hwait

/-! ### Coming to rest -/

/-- An assertion has failed, or nothing is to come but from clients: each connection is being
accepted, is reading, or has ended. -/
def AtRest (cfg : ConfigMgr) (reader : JsonReader) (gate : GateConnections) : Prop :=
  gate.aborted = true ∨ ∀ con ∈ gate.connections,
    con.stage = .accepting ∨ con.stage = .reading ∨ con.Released ∧ Ended cfg reader con

structure Follows (gate later : GateConnections) : Prop where
  length : later.connections.length = gate.connections.length
  request : ∀ (i : Nat) (con con' : GateConnection), gate.connections[i]? = some con →
    later.connections[i]? = some con' → ∀ request, con.request? = some request →
      con'.request? = some request

/-- What keeps the gate from rest is a handler to run, an operation to complete, or a deadline to wait
for. -/
theorem exists_settle_of_not_atRest (hplaced : Placed cfg reader size gate)
    (hrest : ¬ AtRest cfg reader gate) :
    ∃ event next, settle cfg reader gate event = some next := by
  rw [AtRest, not_or] at hrest
  obtain ⟨hnot, hrest⟩ := hrest
  have haborted : gate.aborted = false := eq_false_of_ne_true hnot
  by_cases hhandling : ∃ con ∈ gate.connections, con.handling = true
  · obtain ⟨con, hcon, hhandling⟩ := hhandling
    obtain ⟨i, hget⟩ := List.getElem?_of_mem hcon
    exact exists_settle_of_handling haborted hget hhandling
  · have hidle : ∀ con ∈ gate.connections, con.handling = false := fun con hcon =>
      eq_false_of_ne_true fun htrue => hhandling ⟨con, hcon, htrue⟩
    obtain ⟨con, hcon, hunsettled⟩ : ∃ con ∈ gate.connections, ¬ (con.stage = .accepting ∨
        con.stage = .reading ∨ con.Released ∧ Ended cfg reader con) := by
      by_contra hall
      exact hrest fun con hcon => by_contra fun hunsettled => hall ⟨con, hcon, hunsettled⟩
    obtain ⟨haccepting, hunsettled⟩ := not_or.mp hunsettled
    obtain ⟨hreading, hended⟩ := not_or.mp hunsettled
    obtain ⟨i, hget⟩ := List.getElem?_of_mem hcon
    refine exists_settle_of_pending haborted hidle hget ?_
    by_contra hnone
    obtain ⟨hwrite, hwait⟩ := not_or.mp hnone
    have hreleased := released_of_left haccepting hreading (hidle con hcon) (not_not.mp hwrite)
      (not_not.mp hwait)
    exact hended ⟨hreleased, (hplaced.kept con hcon).ended hreleased⟩

/-- Every step of settling goes down. -/
theorem less_of_settle {event : Event} (hstep : settle cfg reader gate event = some next) :
    Less GateStage.Earlier (rank stage (left next.now) next.connections)
      (rank stage (left gate.now) gate.connections) := by
  obtain ⟨hallowed, hstep⟩ := guarded_eq_some.mp hstep
  cases event with
  | elapse =>
      obtain ⟨-, rfl⟩ := step_elapse hstep
      obtain ⟨con, hcon, hdeadline⟩ := hallowed
      refine less_of_all (fun con _ => ?_) ⟨con, hcon, ?_⟩
      · simp only [left]
        omega
      · simp only [left]
        omega
  | connection i event =>
      obtain ⟨-, con, con', hget, -, hcon', hnext⟩ := step_connection hstep
      have haccepts : event.accepts = false := hallowed
      rcases hnext with ⟨-, rfl⟩ | ⟨hnot, -⟩
      · obtain ⟨before, after, hconnections, hset, -⟩ := Monitor.getElem?_split hget
        rw [put, hset, hconnections]
        rcases hcon'.less haccepts with hearlier | ⟨hstage, hleft⟩
        · exact less_of_earlier hearlier
        · exact less_of_left hstage hleft
      · exact absurd (haccepts.symm.trans hnot) Bool.false_ne_true

/-- No connection comes or goes, and none forgets its request. -/
theorem Follows.settle {later : GateConnections} {event : Event} (hfollows : Follows gate later)
    (hstep : settle cfg reader later event = some next) : Follows gate next := by
  obtain ⟨hallowed, hstep⟩ := guarded_eq_some.mp hstep
  cases event with
  | elapse =>
      obtain ⟨-, rfl⟩ := step_elapse hstep
      exact ⟨hfollows.length, hfollows.request⟩
  | connection i event =>
      obtain ⟨-, con, con', hget, -, hcon', hnext⟩ := step_connection hstep
      have haccepts : event.accepts = false := hallowed
      rcases hnext with ⟨-, rfl⟩ | ⟨hnot, -⟩
      · refine ⟨?_, fun j first other hfirst hother request hrequest => ?_⟩
        · rw [put, List.length_set, hfollows.length]
        · rw [put, List.getElem?_set] at hother
          by_cases hj : i = j
          · subst hj
            rw [if_pos rfl] at hother
            obtain ⟨-, hother⟩ := Option.ite_none_right_eq_some.mp hother
            obtain rfl := Option.some.inj hother
            exact hcon'.request?_of (hfollows.request i first con hfirst hget request hrequest)
          · rw [if_neg hj] at hother
            exact hfollows.request j first other hfirst hother request hrequest
      · exact absurd (haccepts.symm.trans hnot) Bool.false_ne_true

variable {start : GateConnections} {events : List Event}

/-- **Everything comes to rest.** From every state that the gate can get to, once no accept
completes, it gets to rest on every way that its handlers, the answers to its calls, the network and
the clock can take. The connections and the requests that have been read are the same. -/
theorem inevitable_released (hlisten : listen size = some start)
    (hrun : run (step cfg reader) start events = some gate) :
    Inevitable (settle cfg reader) (fun later => AtRest cfg reader later ∧ Follows gate later)
      gate := by
  have hstart := placed_of_run hlisten hrun
  have hsize := size_pos_of_listen hlisten
  have hrest : Inevitable (settle cfg reader) (AtRest cfg reader) gate := by
    refine inevitable_of_wellFounded
      (I := fun later => Placed cfg reader size later ∧ AcceptsLast later)
      (wellFounded_less GateStage.wellFounded_earlier)
      (fun later => rank stage (left later.now) later.connections) ?_ ?_ hstart
    · intro later hlater
      by_cases hrest : AtRest cfg reader later
      · exact .inl hrest
      · exact .inr (exists_settle_of_not_atRest hlater.1 hrest)
    · intro later event next hlater hstep
      refine ⟨placed_step hsize hlater.1 hlater.2 (guarded_eq_some.mp hstep).2, less_of_settle hstep⟩
  refine hrest.and_invariant (fun later event next hfollows hstep => hfollows.settle hstep) ⟨rfl, ?_⟩
  intro i con con' hget hget' request hrequest
  rwa [← Option.some.inj (hget.symm.trans hget')]

/-- A request has been read, and nothing has been done about it. -/
theorem inevitable_released_get_test :
    ∃ first gate, listen 1 = some first ∧
      run (step ⟨[]⟩ fun _ => .ok none) first (onePage.take 2) = some gate ∧
      (gate.connections.map handling) = [true, false] ∧
      Inevitable (settle ⟨[]⟩ fun _ => .ok none)
        (fun later => AtRest ⟨[]⟩ (fun _ => .ok none) later ∧ Follows gate later) gate := by
  obtain ⟨first, hlisten⟩ : ∃ first, listen 1 = some first := ⟨_, rfl⟩
  obtain ⟨gate, hrun, hconnections⟩ := Option.map_eq_some_iff.mp
    (show ((listen 1).bind fun first => run (step ⟨[]⟩ fun _ => .ok none) first (onePage.take 2)).map
        (fun gate => gate.connections.map handling) = some [true, false] from by decide +kernel)
  rw [hlisten] at hrun
  exact ⟨first, gate, hlisten, hrun, hconnections, inevitable_released hlisten hrun⟩

end GateConnections

end QuickChat
