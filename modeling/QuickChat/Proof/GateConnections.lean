import QuickChat.Gate.GateConnections
import QuickChat.Proof.AsioIOServicePool
import QuickChat.Proof.HttpReply

/-!
# What the connections are written

What a connection has been written is settled by its request alone: nothing, or the reply to it,
once. So however the connections take turns, and whatever the calls of `HandleReq` come to, a
connection whose last handler is over has been written the reply and the write has been handled, or
there was none to write. The timer closes no socket before the deadline.
-/

namespace QuickChat

open Program

/-! ### One step of a connection -/

namespace GateConnection

variable {cfg : ConfigMgr} {reader : JsonReader} {now : Nat} {con next : GateConnection} {event : Event}

inductive Stepped (cfg : ConfigMgr) (reader : JsonReader) (now : Nat) (con : GateConnection) :
    Event → GateConnection → Prop where
  | accept (ok : Bool) (hstage : con.stage = .accepting) :
      Stepped cfg reader now con (.accept ok) { con with stage := if ok then .reading else .refused }
  | unread (hstage : con.stage = .reading) :
      Stepped cfg reader now con (.read none) { con with stage := .unread }
  | read (request : HttpRequest) (hstage : con.stage = .reading) :
      Stepped cfg reader now con (.read (some request))
        { con with stage := .handling request (HttpConnection.HandleReq cfg reader (.new request)).run }
  | proceed {request : HttpRequest} {effect : HttpCall}
      {rest : effect.Answer → HttpProgram (Except HttpError Unit)}
      (answer : (effect : HttpCall) → effect.Answer)
      (hstage : con.stage = .handling request (.call effect rest)) :
      Stepped cfg reader now con (.proceed answer)
        (con.perform request effect (answer effect) (rest (answer effect)))
  | returned {request : HttpRequest} (hstage : con.stage = .handling request (.ret (.ok ()))) :
      Stepped cfg reader now con .finish (con.CheckDeadline request)
  | raised {request : HttpRequest} {e : HttpError}
      (hstage : con.stage = .handling request (.ret (.error e))) :
      Stepped cfg reader now con .finish { con with stage := .raised request e }
  | write (complete : Bool) (hwrite : con.write = some .writing)
      (hclosed : complete → con.closed = false) :
      Stepped cfg reader now con (.write complete) { con with write := some (.written complete) }
  | HandleWrite {complete : Bool} (hwrite : con.write = some (.written complete)) :
      Stepped cfg reader now con .HandleWrite (con.HandleWrite complete)
  | expire (hwait : con.wait = some .waiting) (hdeadline : con.deadline_ ≤ now) :
      Stepped cfg reader now con .expire { con with wait := some .expired }
  | expired (hwait : con.wait = some .expired) :
      Stepped cfg reader now con .HandleWait { con with wait := some .handled, closed := true }
  | cancelled (hwait : con.wait = some .cancelled) :
      Stepped cfg reader now con .HandleWait { con with wait := some .handled }

/-- **Inversion of a step of a connection.** An event happens only at its stage, and with its operation
under way. -/
theorem stepped_of_step (hstep : con.step cfg reader now event = some next) :
    Stepped cfg reader now con event next := by
  cases event with
  | accept ok =>
      cases hstage : con.stage with
      | accepting =>
          simp only [step, hstage, Option.some.injEq] at hstep
          exact hstep ▸ .accept ok hstage
      | _ => simp [step, hstage] at hstep
  | read result =>
      cases hstage : con.stage with
      | reading =>
          cases result with
          | none =>
              simp only [step, hstage, Option.some.injEq] at hstep
              exact hstep ▸ .unread hstage
          | some request =>
              simp only [step, hstage, Option.some.injEq] at hstep
              exact hstep ▸ .read request hstage
      | _ => simp [step, hstage] at hstep
  | proceed answer =>
      cases hstage : con.stage with
      | handling request rest =>
          cases rest with
          | ret result => simp [step, hstage] at hstep
          | call effect rest =>
              simp only [step, hstage, Option.some.injEq] at hstep
              exact hstep ▸ .proceed answer hstage
      | _ => simp [step, hstage] at hstep
  | finish =>
      cases hstage : con.stage with
      | handling request rest =>
          cases rest with
          | call effect rest => simp [step, hstage] at hstep
          | ret result =>
              cases result with
              | ok value =>
                  simp only [step, hstage, Option.some.injEq] at hstep
                  exact hstep ▸ .returned hstage
              | error e =>
                  simp only [step, hstage, Option.some.injEq] at hstep
                  exact hstep ▸ .raised hstage
      | _ => simp [step, hstage] at hstep
  | write complete =>
      obtain ⟨⟨hwrite, hclosed⟩, hnext⟩ := Option.ite_none_right_eq_some.mp hstep
      exact Option.some.inj hnext ▸ .write complete hwrite hclosed
  | HandleWrite =>
      cases hwrite : con.write with
      | none => simp [step, hwrite] at hstep
      | some write =>
          cases write with
          | written complete =>
              simp only [step, hwrite, Option.some.injEq] at hstep
              exact hstep ▸ .HandleWrite hwrite
          | _ => simp [step, hwrite] at hstep
  | expire =>
      obtain ⟨⟨hwait, hdeadline⟩, hnext⟩ := Option.ite_none_right_eq_some.mp hstep
      exact Option.some.inj hnext ▸ .expire hwait hdeadline
  | HandleWait =>
      cases hwait : con.wait with
      | none => simp [step, hwait] at hstep
      | some wait =>
          cases wait with
          | expired =>
              simp only [step, hwait, Option.some.injEq] at hstep
              exact hstep ▸ .expired hwait
          | cancelled =>
              simp only [step, hwait, Option.some.injEq] at hstep
              exact hstep ▸ .cancelled hwait
          | _ => simp [step, hwait] at hstep

theorem Stepped.service_eq (hstep : Stepped cfg reader now con event next) :
    next.service = con.service := by
  cases hstep <;> rfl

theorem Stepped.deadline_eq (hstep : Stepped cfg reader now con event next) :
    next.deadline_ = con.deadline_ := by
  cases hstep <;> rfl

theorem Stepped.handling_of (hstep : Stepped cfg reader now con event next)
    (hhandling : next.handling = true) : con.handling = true ∨ event.handler = true := by
  cases hstep with
  | accept ok hstage => cases ok <;> exact absurd hhandling Bool.false_ne_true
  | unread hstage => exact absurd hhandling Bool.false_ne_true
  | read request hstage => exact .inr rfl
  | proceed answer hstage => exact .inl (by simp [handling, hstage])
  | returned hstage => exact absurd hhandling Bool.false_ne_true
  | raised hstage => exact absurd hhandling Bool.false_ne_true
  | _ => exact .inl hhandling

/-! ### What holds of a connection -/

/-- What has been written, by the stage; where `HandleReq` is running, what it will come to. -/
def Stands (cfg : ConfigMgr) (reader : JsonReader) (exchange : HttpExchange) : GateStage → Prop
  | .handling request rest =>
      rest.wp HttpExchange.observe (fun _ _ => True) (fun _ => True)
        (HttpConnection.Outcome cfg reader request) exchange
  | .handled request =>
      ∃ reply, Replies cfg reader request reply ∧ HttpConnection.Written exchange reply
  | .raised _ _ => exchange.written = []
  | _ => exchange = .init

/-- How far the operations of a connection can be. -/
structure Ordered (now : Nat) (con : GateConnection) : Prop where
  write : con.write = none ↔ con.exchange.written = []
  wait : con.wait = none ↔ ∀ request, con.stage ≠ .handled request
  expired : con.wait = some .expired → con.deadline_ ≤ now
  cancelled : con.wait = some .cancelled → ∃ complete, con.write = some (.handled complete)
  waited : con.wait = some .handled → con.closed = true ∨ ∃ complete, con.write = some (.handled complete)
  closed : con.closed = true → con.wait = some .handled ∧ con.deadline_ ≤ now

def Kept (cfg : ConfigMgr) (reader : JsonReader) (now : Nat) (con : GateConnection) : Prop :=
  Stands cfg reader con.exchange con.stage ∧ Ordered now con

theorem kept_new (service : Nat) : Kept cfg reader now (new service now) where
  left := rfl
  right :=
    { write := by simp [new, HttpExchange.init]
      wait := by simp [new]
      expired := by simp [new]
      cancelled := by simp [new]
      waited := by simp [new]
      closed := by simp [new] }

theorem Kept.later (hkept : Kept cfg reader now con) : Kept cfg reader (now + 1) con where
  left := hkept.1
  right :=
    { write := hkept.2.write
      wait := hkept.2.wait
      expired := fun hwait => Nat.le_succ_of_le (hkept.2.expired hwait)
      cancelled := hkept.2.cancelled
      waited := hkept.2.waited
      closed := fun hclosed =>
        ⟨(hkept.2.closed hclosed).1, Nat.le_succ_of_le (hkept.2.closed hclosed).2⟩ }

/-- The stage goes on, and neither the response nor an operation does. -/
theorem Ordered.goesOn {stage : GateStage} (hordered : Ordered now con)
    (hbefore : ∀ request, con.stage ≠ .handled request) (hafter : ∀ request, stage ≠ .handled request) :
    Ordered now { con with stage := stage } where
  write := hordered.write
  wait := iff_of_true (hordered.wait.mpr hbefore) hafter
  expired := hordered.expired
  cancelled := hordered.cancelled
  waited := hordered.waited
  closed := hordered.closed

/-- A call writes the response and starts the write, or does neither. -/
theorem perform_cases (con : GateConnection) (request : HttpRequest) (effect : HttpCall)
    (answer : effect.Answer) (rest : HttpProgram (Except HttpError Unit)) :
    ((con.perform request effect answer rest).write = some .writing ∧
      (con.perform request effect answer rest).exchange.written
        = con.exchange.written ++ [con.exchange.response_]) ∨
    ((con.perform request effect answer rest).write = con.write ∧
      (con.perform request effect answer rest).exchange.written = con.exchange.written) := by
  by_cases heffect : effect = .WriteResponse
  · subst heffect
    exact .inl ⟨rfl, rfl⟩
  · refine .inr ⟨?_, HttpConnection.observe_written heffect answer⟩
    unfold perform
    split
    · exact absurd rfl heffect
    · rfl

/-- There is a write from the moment on that there is something written. -/
theorem Ordered.perform {request : HttpRequest} {effect : HttpCall} {answer : effect.Answer}
    {rest other : HttpProgram (Except HttpError Unit)} (hordered : Ordered now con)
    (hstage : con.stage = .handling request other) :
    Ordered now (con.perform request effect answer rest) := by
  have hnone : con.wait = none := hordered.wait.mpr fun request => by simp [hstage]
  have hwait : (con.perform request effect answer rest).wait = none := hnone
  have hclosed : (con.perform request effect answer rest).closed = true →
      (con.perform request effect answer rest).wait = some .handled ∧ con.deadline_ ≤ now :=
    hordered.closed
  constructor
  · rcases perform_cases con request effect answer rest with ⟨hwrite, hwritten⟩ | ⟨hwrite, hwritten⟩
    · rw [hwrite, hwritten]
      simp
    · rw [hwrite, hwritten]
      exact hordered.write
  · exact iff_of_true hwait fun request => nofun
  · intro hexpired
    exact absurd (hwait.symm.trans hexpired) nofun
  · intro hcancelled
    exact absurd (hwait.symm.trans hcancelled) nofun
  · intro hover
    exact absurd (hwait.symm.trans hover) nofun
  · exact hclosed

theorem Ordered.CheckDeadline {request : HttpRequest} {rest : HttpProgram (Except HttpError Unit)}
    (hordered : Ordered now con) (hstage : con.stage = .handling request rest) :
    Ordered now (con.CheckDeadline request) := by
  have hnone : con.wait = none := hordered.wait.mpr fun request => by simp [hstage]
  constructor
  · exact hordered.write
  · exact iff_of_false nofun fun hall => hall request rfl
  · nofun
  · nofun
  · nofun
  · intro hclosed
    exact absurd (hnone.symm.trans (hordered.closed hclosed).1) nofun

/-- A complete write cancels the wait only while the wait is still to come. -/
theorem Ordered.HandleWrite {complete : Bool} (hordered : Ordered now con)
    (hwrite : con.write = some (.written complete)) : Ordered now (con.HandleWrite complete) := by
  have hnone : (con.HandleWrite complete).wait = none ↔ con.wait = none := by
    unfold GateConnection.HandleWrite
    by_cases hwait : con.wait = some .waiting
    · simp [hwait]
    · simp [hwait]
  have hkept {wait : WaitOp} (hcancelled : wait ≠ .cancelled)
      (hwait : (con.HandleWrite complete).wait = some wait) : con.wait = some wait := by
    unfold GateConnection.HandleWrite at hwait
    by_cases hwaiting : con.wait = some .waiting
    · rw [if_pos hwaiting] at hwait
      exact absurd (Option.some.inj hwait).symm hcancelled
    · rwa [if_neg hwaiting] at hwait
  constructor
  · refine iff_of_false nofun fun hwritten => ?_
    exact absurd (hwrite.symm.trans (hordered.write.mpr hwritten)) nofun
  · exact hnone.trans hordered.wait
  · intro hexpired
    exact hordered.expired (hkept nofun hexpired)
  · exact fun _ => ⟨complete, rfl⟩
  · exact fun _ => .inr ⟨complete, rfl⟩
  · intro hclosed
    obtain ⟨hover, hdeadline⟩ := hordered.closed hclosed
    refine ⟨?_, hdeadline⟩
    unfold GateConnection.HandleWrite
    rw [hover, if_neg nofun]

/-- **One step of a connection.** What `HandleReq` will come to is used up call by call. -/
theorem Kept.step (hkept : Kept cfg reader now con) (hstep : Stepped cfg reader now con event next) :
    Kept cfg reader now next := by
  obtain ⟨hstands, hordered⟩ := hkept
  cases hstep with
  | accept ok hstage =>
      rw [hstage] at hstands
      have hbefore (request : HttpRequest) : con.stage ≠ .handled request := by simp [hstage]
      cases ok with
      | true => exact ⟨hstands, hordered.goesOn hbefore nofun⟩
      | false => exact ⟨hstands, hordered.goesOn hbefore nofun⟩
  | unread hstage =>
      rw [hstage] at hstands
      exact ⟨hstands, hordered.goesOn (fun request => by simp [hstage]) nofun⟩
  | read request hstage =>
      rw [hstage] at hstands
      refine ⟨?_, hordered.goesOn (fun request => by simp [hstage]) nofun⟩
      have hinit : con.exchange = .init := hstands
      simp only [Stands, hinit]
      exact HttpConnection.wp_HandleReq cfg reader request
  | proceed answer hstage =>
      rw [hstage] at hstands
      exact ⟨hstands.2 _ trivial, hordered.perform hstage⟩
  | returned hstage =>
      rw [hstage] at hstands
      exact ⟨hstands.2, hordered.CheckDeadline hstage⟩
  | raised hstage =>
      rw [hstage] at hstands
      exact ⟨hstands.2, hordered.goesOn (fun request => by simp [hstage]) nofun⟩
  | write complete hwrite hclosed =>
      refine ⟨hstands, ?_⟩
      have hpending {complete : Bool} : con.write ≠ some (.handled complete) := by simp [hwrite]
      exact
        { write := by
            refine iff_of_false nofun fun hwritten => ?_
            exact absurd (hwrite.symm.trans (hordered.write.mpr hwritten)) nofun
          wait := hordered.wait
          expired := hordered.expired
          cancelled := fun hcancelled =>
            (hordered.cancelled hcancelled).elim fun _ hover => absurd hover hpending
          waited := fun hover =>
            .inl ((hordered.waited hover).resolve_right fun ⟨_, hover⟩ => hpending hover)
          closed := hordered.closed }
  | HandleWrite hwrite => exact ⟨hstands, hordered.HandleWrite hwrite⟩
  | expire hwait hdeadline =>
      refine ⟨hstands, ?_⟩
      exact
        { write := hordered.write
          wait := iff_of_false nofun fun hall =>
            absurd (hwait.symm.trans (hordered.wait.mpr hall)) nofun
          expired := fun _ => hdeadline
          cancelled := nofun
          waited := nofun
          closed := fun hclosed => absurd (hwait.symm.trans (hordered.closed hclosed).1) nofun }
  | expired hwait =>
      refine ⟨hstands, ?_⟩
      exact
        { write := hordered.write
          wait := iff_of_false nofun fun hall =>
            absurd (hwait.symm.trans (hordered.wait.mpr hall)) nofun
          expired := nofun
          cancelled := nofun
          waited := fun _ => .inl rfl
          closed := fun _ => ⟨rfl, hordered.expired hwait⟩ }
  | cancelled hwait =>
      refine ⟨hstands, ?_⟩
      exact
        { write := hordered.write
          wait := iff_of_false nofun fun hall =>
            absurd (hwait.symm.trans (hordered.wait.mpr hall)) nofun
          expired := nofun
          cancelled := nofun
          waited := fun _ => .inr (hordered.cancelled hwait)
          closed := fun hclosed => absurd (hwait.symm.trans (hordered.closed hclosed).1) nofun }

/-- A connection that is being accepted has nothing else to do. -/
theorem Kept.accepts (hkept : Kept cfg reader now con) (hstage : con.stage = .accepting)
    (hstep : Stepped cfg reader now con event next) : event.accepts = true := by
  obtain ⟨hstands, hordered⟩ := hkept
  rw [hstage] at hstands
  have hinit : con.exchange = .init := hstands
  have hwrite : con.write = none := hordered.write.mpr (by rw [hinit]; rfl)
  have hwait : con.wait = none := hordered.wait.mpr fun request => by simp [hstage]
  cases hstep with
  | accept ok hstage => rfl
  | unread hother => exact absurd (hstage.symm.trans hother) nofun
  | read request hother => exact absurd (hstage.symm.trans hother) nofun
  | proceed answer hother => exact absurd (hstage.symm.trans hother) nofun
  | returned hother => exact absurd (hstage.symm.trans hother) nofun
  | raised hother => exact absurd (hstage.symm.trans hother) nofun
  | write complete hwriting hclosed => exact absurd (hwrite.symm.trans hwriting) nofun
  | HandleWrite hwritten => exact absurd (hwrite.symm.trans hwritten) nofun
  | expire hwaiting hdeadline => exact absurd (hwait.symm.trans hwaiting) nofun
  | expired hexpired => exact absurd (hwait.symm.trans hexpired) nofun
  | cancelled hcancelled => exact absurd (hwait.symm.trans hcancelled) nofun

theorem Stepped.stage_ne_accepting (hstep : Stepped cfg reader now con event next)
    (haccepts : event.accepts = false) (hbefore : con.stage ≠ .accepting) :
    next.stage ≠ .accepting := by
  cases hstep with
  | accept ok hstage => exact absurd rfl (Bool.eq_false_iff.mp haccepts)
  | unread hstage => exact nofun
  | read request hstage => exact nofun
  | proceed answer hstage => exact nofun
  | returned hstage => exact nofun
  | raised hstage => exact nofun
  | _ => exact hbefore

/-! ### What has been written -/

def anyAnswer : (effect : HttpCall) → effect.Answer
  | .gate (.RedisGet _) => (false, [])
  | .gate (.RegUser _ _ _) => (0 : Int)
  | .gate (.CheckEmail _ _) => false
  | .gate (.UpdatePwd _ _) => false
  | .gate (.respond _) => ()
  | .CheckPwd _ _ => (none : Option UserInfo)
  | .GetVerifyCode _ => (⟨0, [], []⟩ : GetVerifyRsp)
  | .GetChatServer _ => (⟨0, [], [], []⟩ : GetChatServerRsp)
  | .version _ => ()
  | .keep_alive _ => ()
  | .result _ => ()
  | .set _ _ => ()
  | .write _ => ()
  | .WriteResponse => ()
  | .iterate get_params_ => HttpCall.listed get_params_

theorem written_foldl (trace : HttpTrace) (exchange : HttpExchange) :
    exchange.written <+:
      (trace.foldl (fun exchange entry => exchange.observe entry.1 entry.2) exchange).written := by
  induction trace generalizing exchange with
  | nil => exact List.prefix_rfl
  | cons entry trace ih =>
      refine List.IsPrefix.trans ?_ (ih (exchange.observe entry.1 entry.2))
      by_cases heffect : entry.1 = .WriteResponse
      · obtain ⟨effect, answer⟩ := entry
        subst heffect
        exact List.prefix_append _ _
      · rw [HttpConnection.observe_written heffect entry.2]

def request? (con : GateConnection) : Option HttpRequest :=
  match con.stage with
  | .handling request _ => some request
  | .handled request => some request
  | .raised request _ => some request
  | _ => none

/-- A request is read once. -/
theorem Stepped.request?_of {request : HttpRequest} (hstep : Stepped cfg reader now con event next)
    (hrequest : con.request? = some request) : next.request? = some request := by
  cases hstep with
  | accept ok hstage => simp [request?, hstage] at hrequest
  | unread hstage => simp [request?, hstage] at hrequest
  | read request hstage => simp [request?, hstage] at hrequest
  | proceed answer hstage => simpa [request?, hstage, perform] using hrequest
  | returned hstage => simpa [request?, hstage, CheckDeadline] using hrequest
  | raised hstage => simpa [request?, hstage] using hrequest
  | _ => exact hrequest

inductive Ended (cfg : ConfigMgr) (reader : JsonReader) (con : GateConnection) : Prop where
  | refused (hstage : con.stage = .refused) (hwritten : con.exchange.written = [])
  | unread (hstage : con.stage = .unread) (hwritten : con.exchange.written = [])
  | raised {request : HttpRequest} {e : HttpError} (hstage : con.stage = .raised request e)
      (hwritten : con.exchange.written = [])
  | unanswered {request : HttpRequest} (hstage : con.stage = .handled request)
      (hreply : Replies cfg reader request none) (hwritten : con.exchange.written = [])
      (hclosed : con.closed = true)
  | answered {request : HttpRequest} {reply : HttpResponse} {complete : Bool}
      (hstage : con.stage = .handled request) (hreply : Replies cfg reader request (some reply))
      (hwritten : con.exchange.written = [reply]) (hwrite : con.write = some (.handled complete))

theorem Kept.written_cases (hkept : Kept cfg reader now con) :
    con.exchange.written = [] ∨
      ∃ request reply, con.request? = some request ∧ Replies cfg reader request (some reply) ∧
        con.exchange.written = [reply] := by
  obtain ⟨hstands, -⟩ := hkept
  cases hstage : con.stage with
  | handling request rest =>
      rw [hstage] at hstands
      obtain ⟨trace, result, htrace⟩ := exists_performs (fun effect => ⟨anyAnswer effect⟩) rest
      have houtcome := wp_iff_performs.mp hstands trace result htrace
      have hprefix := written_foldl trace con.exchange
      cases result with
      | error e =>
          have hnone : _ = [] := houtcome
          exact .inl (List.prefix_nil.mp (hnone ▸ hprefix))
      | ok value =>
          obtain ⟨reply, hreply, hwritten, -⟩ := houtcome
          rw [hwritten] at hprefix
          cases reply with
          | none => exact .inl (List.prefix_nil.mp hprefix)
          | some reply =>
              have hcases : con.exchange.written = [] ++ [reply] ∨ con.exchange.written <+: [] :=
                List.prefix_concat_iff.mp hprefix
              rcases hcases with hone | hnone
              · exact .inr ⟨request, reply, by simp [request?, hstage], hreply, hone⟩
              · exact .inl (List.prefix_nil.mp hnone)
  | handled request =>
      rw [hstage] at hstands
      obtain ⟨reply, hreply, hwritten, -⟩ := hstands
      cases reply with
      | none => exact .inl hwritten
      | some reply => exact .inr ⟨request, reply, by simp [request?, hstage], hreply, hwritten⟩
  | raised request e =>
      rw [hstage] at hstands
      exact .inl hstands
  | _ =>
      rw [hstage] at hstands
      have hinit : con.exchange = .init := hstands
      exact .inl (by rw [hinit]; rfl)

/-- Without a handler to come, each stage leaves one of the five ends. -/
theorem Kept.ended (hkept : Kept cfg reader now con) (hreleased : con.Released) :
    Ended cfg reader con := by
  obtain ⟨hstands, hordered⟩ := hkept
  obtain ⟨hstageOver, hwriteOver, hwaitOver⟩ := hreleased
  cases hstage : con.stage with
  | accepting => simp [hstage] at hstageOver
  | reading => simp [hstage] at hstageOver
  | handling request rest => simp [hstage] at hstageOver
  | refused =>
      rw [hstage] at hstands
      have hinit : con.exchange = .init := hstands
      exact .refused hstage (by rw [hinit]; rfl)
  | unread =>
      rw [hstage] at hstands
      have hinit : con.exchange = .init := hstands
      exact .unread hstage (by rw [hinit]; rfl)
  | raised request e =>
      rw [hstage] at hstands
      exact .raised hstage hstands
  | handled request =>
      rw [hstage] at hstands
      obtain ⟨reply, hreply, hwritten, -⟩ := hstands
      cases reply with
      | none =>
          have hwrite : con.write = none := hordered.write.mpr hwritten
          have hwaits : con.wait = some .handled := by
            cases hwait : con.wait with
            | none => exact absurd hstage (hordered.wait.mp hwait request)
            | some wait =>
                cases wait with
                | handled => rfl
                | _ => simp [hwait] at hwaitOver
          refine .unanswered hstage hreply hwritten ?_
          exact (hordered.waited hwaits).resolve_right fun ⟨_, hover⟩ => by simp [hwrite] at hover
      | some reply =>
          cases hwrite : con.write with
          | none => exact absurd (hwritten.symm.trans (hordered.write.mp hwrite)) (by simp)
          | some write =>
              cases write with
              | writing => simp [hwrite] at hwriteOver
              | written complete => simp [hwrite] at hwriteOver
              | handled complete => exact .answered hstage hreply hwritten hwrite

end GateConnection

/-! ### One step of the gate -/

namespace GateConnections

open Machine GateConnection

variable {cfg : ConfigMgr} {reader : JsonReader} {size : Nat} {gate next : GateConnections}
  {i : Nat} {con con' : GateConnection}

def put (gate : GateConnections) (i : Nat) (con : GateConnection) : GateConnections :=
  { gate with connections := gate.connections.set i con }

theorem step_elapse (hstep : step cfg reader gate .elapse = some next) :
    gate.aborted = false ∧ next = { gate with now := gate.now + 1 } := by
  obtain ⟨haborted, hnext⟩ := Option.ite_none_left_eq_some.mp hstep
  exact ⟨eq_false_of_ne_true haborted, (Option.some.inj hnext).symm⟩

/-- **Inversion of a step of the gate.** The connection steps, and behind an accept the next one is
made. -/
theorem step_connection {event : GateConnection.Event}
    (hstep : step cfg reader gate (.connection i event) = some next) :
    gate.aborted = false ∧ ∃ con con', gate.connections[i]? = some con ∧
      (event.handler = true → gate.busy con.service = false) ∧
      Stepped cfg reader gate.now con event con' ∧
      ((event.accepts = false ∧ next = gate.put i con') ∨
        (event.accepts = true ∧ (gate.put i con').Start = some next)) := by
  obtain ⟨haborted, hstep⟩ := Option.ite_none_left_eq_some.mp hstep
  obtain ⟨con, hget, hstep⟩ := Option.bind_eq_some_iff.mp hstep
  obtain ⟨hfree, hstep⟩ := Option.ite_none_left_eq_some.mp hstep
  obtain ⟨con', hcon', hstep⟩ := Option.bind_eq_some_iff.mp hstep
  refine ⟨eq_false_of_ne_true haborted, con, con', hget, fun hhandler => ?_, stepped_of_step hcon', ?_⟩
  · exact eq_false_of_ne_true fun hbusy => hfree ⟨hhandler, hbusy⟩
  · by_cases haccepts : event.accepts = true
    · rw [if_pos haccepts] at hstep
      exact .inr ⟨haccepts, hstep⟩
    · rw [if_neg haccepts] at hstep
      exact .inl ⟨eq_false_of_ne_true haccepts, (Option.some.inj hstep).symm⟩

/-! ### The connections of a run -/

/-- The connections are spread over the contexts in turn, at most one handler runs on each context, and
each connection is as it has to be. -/
structure Placed (cfg : ConfigMgr) (reader : JsonReader) (size : Nat) (gate : GateConnections) :
    Prop where
  length : gate.pool.ioServices_.length = size
  turn : gate.pool.nextIOService_ = gate.connections.length % size
  service : ∀ (i : Nat) (con : GateConnection), gate.connections[i]? = some con → con.service = i % size
  exclusive : ∀ (i j : Nat) (con con' : GateConnection), gate.connections[i]? = some con →
    gate.connections[j]? = some con' → con.handling = true → con'.handling = true →
    con.service = con'.service → i = j
  kept : ∀ con ∈ gate.connections, con.Kept cfg reader gate.now

structure AcceptsLast (gate : GateConnections) : Prop where
  nonempty : gate.connections ≠ []
  stage : ∀ (i : Nat) (con : GateConnection), gate.connections[i]? = some con →
    (con.stage = .accepting ↔ i + 1 = gate.connections.length)

theorem busy_of_handling {j : Nat} {other : GateConnection} (hget : gate.connections[j]? = some other)
    (hhandling : other.handling = true) : gate.busy other.service = true :=
  List.any_eq_true.mpr ⟨other, List.mem_of_getElem? hget, by simp [hhandling]⟩

/-- A handler begins on a free context only, so no context gets two. -/
theorem placed_put {event : GateConnection.Event} (hplaced : Placed cfg reader size gate)
    (hget : gate.connections[i]? = some con)
    (hfree : event.handler = true → gate.busy con.service = false)
    (hstep : Stepped cfg reader gate.now con event con') :
    Placed cfg reader size (gate.put i con') := by
  obtain ⟨hi, -⟩ := List.getElem?_eq_some_iff.mp hget
  have hself : (gate.connections.set i con')[i]? = some con' := List.getElem?_set_self hi
  have hother {j : Nat} (hj : j ≠ i) : (gate.connections.set i con')[j]? = gate.connections[j]? :=
    List.getElem?_set_ne hj.symm
  have halone {j : Nat} {other : GateConnection} (hother : gate.connections[j]? = some other)
      (hhandling : con'.handling = true) (hhandlingOther : other.handling = true)
      (hservice : con'.service = other.service) : i = j := by
    rw [hstep.service_eq] at hservice
    rcases hstep.handling_of hhandling with hbefore | hhandler
    · exact hplaced.exclusive i j con other hget hother hbefore hhandlingOther hservice
    · have hbusy := busy_of_handling hother hhandlingOther
      rw [← hservice, hfree hhandler] at hbusy
      exact absurd hbusy Bool.false_ne_true
  constructor
  · exact hplaced.length
  · exact hplaced.turn.trans (by rw [put, List.length_set])
  · intro j other hother'
    by_cases hj : j = i
    · subst hj
      obtain rfl := Option.some.inj (hself.symm.trans hother')
      rw [hstep.service_eq]
      exact hplaced.service j con hget
    · exact hplaced.service j other ((hother hj).symm.trans hother')
  · intro j k first second hfirst hsecond hhandlingFirst hhandlingSecond hservice
    by_cases hj : j = i
    · subst hj
      obtain rfl := Option.some.inj (hself.symm.trans hfirst)
      by_cases hk : k = j
      · exact hk.symm
      · exact halone ((hother hk).symm.trans hsecond) hhandlingFirst hhandlingSecond hservice
    · by_cases hk : k = i
      · subst hk
        obtain rfl := Option.some.inj (hself.symm.trans hsecond)
        exact (halone ((hother hj).symm.trans hfirst) hhandlingSecond hhandlingFirst hservice.symm).symm
      · exact hplaced.exclusive j k first second ((hother hj).symm.trans hfirst)
          ((hother hk).symm.trans hsecond) hhandlingFirst hhandlingSecond hservice
  · intro other hmem
    rcases List.mem_or_eq_of_mem_set hmem with hmem | rfl
    · exact hplaced.kept other hmem
    · exact (hplaced.kept con (List.mem_of_getElem? hget)).step hstep

theorem start_eq_some (hsize : 0 < size) (hplaced : Placed cfg reader size gate) :
    gate.Start = some { gate with
      pool := { gate.pool with nextIOService_ := (gate.connections.length + 1) % size }
      connections := gate.connections ++ [.new (gate.connections.length % size) gate.now] } := by
  rw [Start, AsioIOServicePool.GetIOService_of_mod hsize hplaced.length hplaced.turn]
  rfl

/-- The next connection gets the next context in turn. -/
theorem placed_start (hsize : 0 < size) (hplaced : Placed cfg reader size gate)
    (hstart : gate.Start = some next) : Placed cfg reader size next := by
  rw [start_eq_some hsize hplaced] at hstart
  obtain rfl := Option.some.inj hstart
  have hcases {j : Nat} {other : GateConnection}
      (hother : (gate.connections ++ [.new (gate.connections.length % size) gate.now])[j]?
        = some other) :
      gate.connections[j]? = some other ∨
        j = gate.connections.length ∧ other = .new (gate.connections.length % size) gate.now := by
    rcases Nat.lt_trichotomy j gate.connections.length with hj | rfl | hj
    · exact .inl (by rwa [List.getElem?_append_left hj] at hother)
    · rw [List.getElem?_concat_length] at hother
      exact .inr ⟨rfl, (Option.some.inj hother).symm⟩
    · rw [List.getElem?_eq_none (by simp; omega)] at hother
      exact absurd hother (Option.some_ne_none _).symm
  constructor
  · exact hplaced.length
  · rw [List.length_append, List.length_singleton]
  · intro j other hother
    rcases hcases hother with hother | ⟨rfl, rfl⟩
    · exact hplaced.service j other hother
    · rfl
  · intro j k first second hfirst hsecond hhandlingFirst hhandlingSecond hservice
    rcases hcases hfirst with hfirst | ⟨rfl, rfl⟩
    · rcases hcases hsecond with hsecond | ⟨rfl, rfl⟩
      · exact hplaced.exclusive j k first second hfirst hsecond hhandlingFirst hhandlingSecond hservice
      · exact absurd hhandlingSecond Bool.false_ne_true
    · exact absurd hhandlingFirst Bool.false_ne_true
  · intro other hmem
    rcases List.mem_append.mp hmem with hmem | hmem
    · exact hplaced.kept other hmem
    · rw [List.mem_singleton.mp hmem]
      exact kept_new _

theorem acceptsLast_put {event : GateConnection.Event} (hplaced : Placed cfg reader size gate)
    (hlast : AcceptsLast gate) (hget : gate.connections[i]? = some con)
    (hstep : Stepped cfg reader gate.now con event con') (haccepts : event.accepts = false) :
    AcceptsLast (gate.put i con') := by
  have hnot : con.stage ≠ .accepting := fun hstage => by
    have hkept := hplaced.kept con (List.mem_of_getElem? hget)
    exact absurd (haccepts.symm.trans (hkept.accepts hstage hstep)) Bool.false_ne_true
  constructor
  · intro hnil
    exact hlast.nonempty ((List.set_eq_nil_iff _ _).mp hnil)
  · intro j other hother
    rw [put, List.length_set]
    rw [put, List.getElem?_set] at hother
    by_cases hj : i = j
    · subst hj
      rw [if_pos rfl] at hother
      obtain ⟨-, hother⟩ := Option.ite_none_right_eq_some.mp hother
      obtain rfl := Option.some.inj hother
      exact iff_of_false (hstep.stage_ne_accepting haccepts hnot)
        fun hend => hnot ((hlast.stage i con hget).mpr hend)
    · rw [if_neg hj] at hother
      exact hlast.stage j other hother

/-- Once the accept has completed no connection is being accepted, until `Start` makes another. -/
theorem acceptsLast_start {event : GateConnection.Event} (hlast : AcceptsLast gate)
    (hget : gate.connections[i]? = some con) (hstep : Stepped cfg reader gate.now con event con')
    (haccepts : event.accepts = true) (hstart : (gate.put i con').Start = some next) :
    AcceptsLast next := by
  obtain ⟨given, -, rfl⟩ := Option.map_eq_some_iff.mp hstart
  have hstage : con.stage = .accepting ∧ con'.stage ≠ .accepting := by
    cases hstep with
    | accept ok hstage => cases ok <;> exact ⟨hstage, nofun⟩
    | _ => exact absurd haccepts Bool.false_ne_true
  have hend := (hlast.stage i con hget).mp hstage.1
  constructor
  · exact List.append_ne_nil_of_right_ne_nil _ (List.cons_ne_nil _ _)
  · intro j other hother
    simp only [put, List.length_append, List.length_set, List.length_singleton] at hother ⊢
    by_cases hj : j < gate.connections.length
    · rw [List.getElem?_append_left (by rwa [List.length_set]), List.getElem?_set] at hother
      refine iff_of_false ?_ (by omega)
      by_cases hi : i = j
      · rw [if_pos hi, if_pos (by omega)] at hother
        obtain rfl := Option.some.inj hother
        exact hstage.2
      · rw [if_neg hi] at hother
        intro haccepting
        have hlength := (hlast.stage j other hother).mp haccepting
        omega
    · rw [List.getElem?_append_right (by simp; omega), List.length_set,
        List.getElem?_singleton] at hother
      obtain ⟨hzero, hother⟩ := Option.ite_none_right_eq_some.mp hother
      obtain rfl := Option.some.inj hother
      exact iff_of_true rfl (by omega)

/-! ### Every run -/

theorem size_pos_of_listen (hlisten : listen size = some gate) : 0 < size := by
  obtain ⟨given, hgiven, -⟩ := Option.map_eq_some_iff.mp hlisten
  obtain ⟨hlt, -⟩ := Option.ite_none_right_eq_some.mp hgiven
  simpa [AsioIOServicePool.new] using hlt

theorem placed_listen (hlisten : listen size = some gate) : Placed cfg reader size gate := by
  refine placed_start (size_pos_of_listen hlisten) ?_ hlisten
  constructor
  · exact List.length_replicate
  · exact (Nat.zero_mod size).symm
  · intro i con hget
    exact absurd hget (by simp)
  · intro i j con con' hget
    exact absurd hget (by simp)
  · exact List.forall_mem_nil _

theorem acceptsLast_listen (hlisten : listen size = some gate) : AcceptsLast gate := by
  obtain ⟨given, -, rfl⟩ := Option.map_eq_some_iff.mp hlisten
  refine ⟨List.cons_ne_nil _ _, fun i con hget => ?_⟩
  simp only [List.nil_append, List.getElem?_singleton] at hget
  obtain ⟨rfl, hget⟩ := Option.ite_none_right_eq_some.mp hget
  obtain rfl := Option.some.inj hget
  exact iff_of_true rfl rfl

/-- **One step of the gate.** -/
theorem placed_step (hsize : 0 < size) {event : Event} (hplaced : Placed cfg reader size gate)
    (hlast : AcceptsLast gate) (hstep : step cfg reader gate event = some next) :
    Placed cfg reader size next ∧ AcceptsLast next := by
  cases event with
  | elapse =>
      obtain ⟨-, rfl⟩ := step_elapse hstep
      refine ⟨?_, ⟨hlast.nonempty, hlast.stage⟩⟩
      exact
        { length := hplaced.length
          turn := hplaced.turn
          service := hplaced.service
          exclusive := hplaced.exclusive
          kept := fun con hcon => (hplaced.kept con hcon).later }
  | connection i event =>
      obtain ⟨-, con, con', hget, hfree, hcon', hnext⟩ := step_connection hstep
      have hput := placed_put hplaced hget hfree hcon'
      rcases hnext with ⟨haccepts, rfl⟩ | ⟨haccepts, hstart⟩
      · exact ⟨hput, acceptsLast_put hplaced hlast hget hcon' haccepts⟩
      · exact ⟨placed_start hsize hput hstart, acceptsLast_start hlast hget hcon' haccepts hstart⟩

variable {start : GateConnections} {events : List Event}

theorem placed_of_run (hlisten : listen size = some start)
    (hrun : run (step cfg reader) start events = some gate) :
    Placed cfg reader size gate ∧ AcceptsLast gate :=
  run_invariant (P := fun gate => Placed cfg reader size gate ∧ AcceptsLast gate)
    ⟨placed_listen hlisten, acceptsLast_listen hlisten⟩
    (fun _ _ _ hbefore hstep => placed_step (size_pos_of_listen hlisten) hbefore.1 hbefore.2 hstep) hrun

/-- What a connection has been written, whether the timer has closed it, and how it has ended. -/
structure Served (cfg : ConfigMgr) (reader : JsonReader) (now : Nat) (con : GateConnection) : Prop where
  written : con.exchange.written = [] ∨ ∃ request reply, con.request? = some request ∧
    Replies cfg reader request (some reply) ∧ con.exchange.written = [reply]
  closed : con.closed = true → con.deadline_ ≤ now
  ended : con.Released → Ended cfg reader con

/-- **What the gate does for its connections.** In every run, the gate accepts on the newest connection
alone, the connections are on the contexts in turn, and no two handlers run on one context. Every
connection has been written nothing or the reply to its request, is not closed by its timer before its
deadline, and has ended in one of five ways once no handler of it is to come. -/
theorem served_of_run (hlisten : listen size = some start)
    (hrun : run (step cfg reader) start events = some gate) :
    AcceptsLast gate ∧
      (∀ (i : Nat) (con : GateConnection), gate.connections[i]? = some con → con.service = i % size) ∧
      (∀ (i j : Nat) (con con' : GateConnection), gate.connections[i]? = some con →
        gate.connections[j]? = some con' → con.handling = true → con'.handling = true →
        con.service = con'.service → i = j) ∧
      ∀ con ∈ gate.connections, Served cfg reader gate.now con := by
  obtain ⟨hplaced, hlast⟩ := placed_of_run hlisten hrun
  refine ⟨hlast, hplaced.service, hplaced.exclusive, fun con hcon => ?_⟩
  have hkept := hplaced.kept con hcon
  exact ⟨hkept.written_cases, fun hclosed => (hkept.2.closed hclosed).2, hkept.ended⟩

def onePage : List Event :=
  [.connection 0 (.accept true),
    .connection 0 (.read (some ⟨.get, Text.ascii "/get_test", 11, []⟩))] ++
  List.replicate 7 (.connection 0 (.proceed anyAnswer)) ++
  [.connection 0 .finish, .elapse, .connection 0 (.write true), .connection 0 .HandleWrite,
    .connection 0 .HandleWait]

theorem served_of_run_get_test :
    ∃ first gate, listen 1 = some first ∧
      run (step ⟨[]⟩ fun _ => .ok none) first onePage = some gate ∧
      (gate.connections.map fun con => (con.exchange.written.length, con.closed))
        = [(1, false), (0, false)] ∧
      AcceptsLast gate ∧ ∀ con ∈ gate.connections, Served ⟨[]⟩ (fun _ => .ok none) gate.now con := by
  obtain ⟨first, hlisten⟩ : ∃ first, listen 1 = some first := ⟨_, rfl⟩
  obtain ⟨gate, hrun, hconnections⟩ := Option.map_eq_some_iff.mp
    (show ((listen 1).bind fun first => run (step ⟨[]⟩ fun _ => .ok none) first onePage).map
        (fun gate => gate.connections.map fun con => (con.exchange.written.length, con.closed))
      = some [(1, false), (0, false)] from by decide +kernel)
  rw [hlisten] at hrun
  obtain ⟨hlast, -, -, hserved⟩ := served_of_run hlisten hrun
  exact ⟨first, gate, hlisten, hrun, hconnections, hlast, hserved⟩

end GateConnections

end QuickChat
