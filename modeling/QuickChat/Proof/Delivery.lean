import Mathlib.Data.Finset.Card
import QuickChat.Chat.ChatSessions
import QuickChat.Proof.Dispatch
import QuickChat.Proof.RoundTrip

/-!
# From the bytes of a session to the handlers

Whatever the sessions receive and however they, the worker and the notifications take turns, the
handler calls for a session are made for the first frames of its bytes that have a handler, in their
order and once each. What one session receives does not change what is called for another.

A server that receives nothing more comes to rest on every way, unless it is stopped: then the calls
for each session are those for all of its frames.
-/

namespace QuickChat

/-! ### What a completion posts -/

namespace CSession

variable {session next : CSession} {completion : Completion} {completions : List Completion}

/-- A completion posts one node at most. -/
theorem posted_callback (session : CSession) (handler : Handler) (ec : Bool)
    (bytes_transfered : Nat) :
    (session.callback handler ec bytes_transfered).posted = session.posted ∨
      ∃ node, (session.callback handler ec bytes_transfered).posted = session.posted ++ [node] := by
  cases handler with
  | head =>
      left
      change (session.onHead ec bytes_transfered).posted = _
      unfold onHead
      split
      · rfl
      split
      · rfl
      dsimp only
      split
      · rfl
      split
      · rfl
      · rfl
  | body total_len =>
      change (session.onBody total_len ec bytes_transfered).posted = _ ∨
        ∃ node, (session.onBody total_len ec bytes_transfered).posted = _
      unfold onBody
      split
      · exact .inl rfl
      split
      · exact .inl rfl
      split
      · exact .inl rfl
      · exact .inr ⟨_, rfl⟩

theorem posted_of_step (hstep : step session completion = some next) :
    next.posted = session.posted ∨ ∃ node, next.posted = session.posted ++ [node] := by
  cases hpending : session.pending with
  | none => simp [step, hpending] at hstep
  | some op =>
      obtain ⟨-, rfl⟩ := (step_eq_some hpending).mp hstep
      cases completion with
      | error => exact posted_callback { session with pending := none } _ _ _
      | ok chunk =>
          simp only [onReadSome]
          split
          · exact posted_callback { session with pending := none, data_ := _ } _ _ _
          · exact .inl rfl

instance (session : CSession) : Decidable session.Settled :=
  inferInstanceAs (Decidable (∀ op ∈ session.pending, op.requested ≠ 0))

theorem settled_of_head (hpending : session.pending = some ⟨.head, 0, HEAD_TOTAL_LEN⟩) :
    session.Settled := by
  intro op hop
  rw [hpending, Option.some.injEq] at hop
  rw [← hop]
  decide

/-- A read of nothing ends a body of length 0, and the next header is waited for. -/
theorem Reads.step_empty (hreads : Reads completions session)
    (hstep : CSession.step session (.ok []) = some next) :
    ¬ session.Settled ∧ next.Settled ∧ ∃ node : RecvNode, node.Accepted ∧
      next.posted = session.posted ++ [node] := by
  obtain ⟨part, hreceived, hphase⟩ := hreads.phase
  cases hphase with
  | refused hpending => simp [CSession.step, hpending] at hstep
  | failed hpending => simp [CSession.step, hpending] at hstep
  | head hpending hshort hdata =>
      obtain ⟨⟨-, hempty⟩, -⟩ := (step_eq_some hpending).mp hstep
      have hnone := hempty rfl
      rw [requested_eq .head hshort.le (by decide)] at hnone
      omega
  | body n read_len node hpending hlength hunfinished hannounced hnode hid hlen hdata =>
      obtain ⟨⟨-, hempty⟩, hnext⟩ := (step_eq_some hpending).mp hstep
      obtain ⟨htotal, hmax⟩ := wire_bodyLen_eq_some.mp hannounced
      have hnone := hempty rfl
      rw [requested_eq _ (by omega) hmax] at hnone
      obtain ⟨rfl, rfl⟩ : read_len = 0 ∧ n = 0 := by omega
      rw [← hlen] at htotal
      refine ⟨fun hsettled => hsettled _ hpending (hempty rfl), ?_⟩
      subst hnext
      have hsize_t : size_t ((0 : Nat) : Int) = 0 := by decide
      simp only [onReadSome, List.length_nil, Nat.add_zero, ge_iff_le, le_refl, if_true, callback,
        onBody, Bool.false_eq_true, if_false, hsize_t, Nat.lt_irrefl, hnode]
      refine ⟨settled_of_head rfl, _, ?_, rfl⟩
      change 0 ≤ node.total_len_.toInt ∧ node.total_len_.toInt ≤ MAX_LENGTH
      have hbound : MAX_LENGTH = 2048 := rfl
      omega

/-- At the end of the bytes the session is closed, and posts nothing. -/
theorem step_end (hstep : step session .error = some next) :
    session.pending ≠ none ∧ next.pending = none ∧ next.posted = session.posted := by
  cases hpending : session.pending with
  | none => simp [step, hpending] at hstep
  | some op =>
      obtain ⟨-, rfl⟩ := (step_eq_some hpending).mp hstep
      refine ⟨by simp, ?_⟩
      obtain ⟨handler, read_len, total_len⟩ := op
      cases handler <;> exact ⟨rfl, rfl⟩

theorem exists_step_empty (hsettled : ¬ session.Settled) :
    ∃ next, step session (.ok []) = some next := by
  obtain ⟨op, hpending, hnone⟩ : ∃ op, session.pending = some op ∧ op.requested = 0 := by
    simpa [Settled] using hsettled
  exact ⟨_, (step_eq_some hpending).mpr ⟨⟨Nat.zero_le _, fun _ => hnone⟩, rfl⟩⟩

/-- What is posted are the first frames of the bytes received, and all of them once the loop has
settled. -/
theorem Reads.posted_isPrefix (hreads : Reads completions session) :
    session.posted.map RecvNode.message <+:
        (wire.split (received completions)).1.map decode ∧
      (session.Settled → session.posted.map RecvNode.message =
        (wire.split (received completions)).1.map decode) := by
  rw [hreads.toSound.map_message]
  constructor
  · obtain ⟨part, hreceived, -⟩ := hreads.phase
    obtain ⟨hframes, hstuck, hsplit⟩ := wire.split_spec (received completions)
    obtain ⟨more, hmore, -⟩ := Framing.Format.frames_prefix (fun _ => hreads.isFrame_of_mem) hframes
      hstuck (show (session.posted.map RecvNode.encode).flatten ++ part = _ by
        rw [hsplit, hreceived, reencoded])
    rw [hmore, List.map_append]
    exact List.prefix_append _ _
  · intro hsettled
    obtain ⟨rest, -, -, hsplit⟩ := hreads.split_eq hsettled
    rw [hsplit]

end CSession

/-! ### What is left to do for the worker -/

namespace Chat.LogicSystem

variable {Session : Type} {fun_callbacks_ : Finset Int16} {state next : LogicSystem Session}
  {event : Event Session}

/-- A worker that has found the queue non-empty still finds it so, and one that is emptying the queue,
or has ended, has seen the flag. -/
structure Fed (state : LogicSystem Session) : Prop where
  awake : state.worker = .awake → state.msg_que_ ≠ [] ∨ state.b_stop_ = true
  dispatch : state.worker = .dispatch ∨ state.worker = .popping → state.msg_que_ ≠ []
  draining : state.worker = .draining ∨ state.worker = .drainPopping ∨ state.worker = .ended →
    state.b_stop_ = true

theorem fed_init : Fed (init : LogicSystem Session) := by
  constructor <;> simp [init]

/-- The worker itself never takes a message from a queue that it has seen to be empty. -/
theorem Fed.deal (hstate : Fed state) (hdeals : Deals fun_callbacks_ state next) : Fed next := by
  cases hdeals with
  | quiet worker hquiet =>
      cases hquiet with
      | found hworker hready => exact ⟨fun _ => hready, by simp, by simp⟩
      | running hworker hrunning =>
          refine ⟨by simp, fun _ => (hstate.awake hworker).resolve_right ?_, by simp⟩
          simp [hrunning]
      | ended hworker hempty =>
          exact ⟨by simp, by simp, fun _ => hstate.draining (.inl hworker)⟩
      | _ hworker => exact ⟨by simp, by simp, by simp⟩
  | observe hworker hstop => exact ⟨by simp, by simp, fun _ => hstop⟩
  | call msg rest worker hque hmem hworker =>
      rcases hworker with ⟨hworker, rfl⟩ | ⟨hworker, rfl⟩
      · exact ⟨by simp, fun _ => hstate.dispatch (.inl hworker), by simp⟩
      · exact ⟨by simp, by simp, fun _ => hstate.draining (.inl hworker)⟩
  | skip msg rest worker hque hmem hworker =>
      rcases hworker with ⟨hworker, rfl⟩ | ⟨hworker, rfl⟩
      · exact ⟨by simp, by simp, by simp⟩
      · exact ⟨by simp, by simp, fun _ => hstate.draining (.inl hworker)⟩
  | pop worker hworker =>
      rcases hworker with ⟨hworker, rfl⟩ | ⟨hworker, rfl⟩
      · exact ⟨by simp, by simp, by simp⟩
      · exact ⟨by simp, by simp, fun _ => hstate.draining (.inr (.inl hworker))⟩

theorem Fed.post (hstate : Fed state) (msg : LogicNode Session) : Fed (state.PostMsgToQue msg) :=
  ⟨fun _ => .inl (by simp [PostMsgToQue]), fun _ => by simp [PostMsgToQue], hstate.draining⟩

theorem Fed.wake (hstate : Fed state) {worker : Worker}
    (hworker : worker = state.worker ∨ state.worker = .blocked ∧ worker = .woken)
    (destructor : Destructor) (notifying : Nat) :
    Fed { state with worker := worker, destructor := destructor, notifying := notifying } := by
  rcases hworker with rfl | ⟨-, rfl⟩
  · exact ⟨hstate.awake, hstate.dispatch, hstate.draining⟩
  · exact ⟨by simp, by simp, by simp⟩

theorem Fed.step (hstate : Fed state)
    (hstep : LogicSystem.step fun_callbacks_ state event = some next) : Fed next := by
  cases moves_of_step hstep with
  | post msg => exact hstate.post msg
  | notify => exact hstate.wake (Worker.notify_eq _) _ _
  | deal hdeals => exact hstate.deal hdeals
  | spurious hblocked => exact hstate.wake (.inr ⟨hblocked, rfl⟩) _ _
  | stop => exact ⟨fun _ => .inr rfl, hstate.dispatch, fun _ => rfl⟩
  | stopNotify => exact hstate.wake (Worker.notify_eq _) _ _
  | join => exact hstate.wake (.inl rfl) _ _

def wait : Worker → Nat
  | .blocked => 0
  | .block => 1
  | .popping => 2
  | .dispatch => 3
  | .awake => 4
  | .test => 5
  | .lock => 6
  | .woken => 6
  | .draining => 0
  | .drainPopping => 0
  | .ended => 0

/-- The steps that are left without further posts: a message takes the worker once through its loop, and
a notification at most once more. -/
def weight (state : LogicSystem Session) : Nat :=
  6 * state.msg_que_.length + 7 * state.notifying + wait state.worker

theorem weight_post (state : LogicSystem Session) (msg : LogicNode Session) :
    (state.PostMsgToQue msg).weight ≤ state.weight + 13 := by
  simp only [weight, PostMsgToQue, List.length_append, List.length_singleton]
  split <;> omega

/-- Every step of the worker is one of a loop that ends, or brings it nearer to its sleep. -/
theorem weight_deal (hfed : Fed state) (hstop : state.b_stop_ = false)
    (hdeals : Deals fun_callbacks_ state next) : next.weight < state.weight := by
  have hrunning (hworker : state.worker = .draining ∨ state.worker = .drainPopping ∨
      state.worker = .ended) : False := by
    have := hfed.draining hworker
    simp [hstop] at this
  cases hdeals with
  | quiet worker hquiet =>
      cases hquiet with
      | ended hworker _ => exact (hrunning (.inl hworker)).elim
      | _ hworker => simp only [weight, hworker, wait]; omega
  | observe hworker hobserved => simp [hstop] at hobserved
  | call msg rest worker hque hmem hworker =>
      rcases hworker with ⟨hworker, rfl⟩ | ⟨hworker, -⟩
      · simp only [weight, hworker, wait]
        omega
      · exact (hrunning (.inl hworker)).elim
  | skip msg rest worker hque hmem hworker =>
      rcases hworker with ⟨hworker, rfl⟩ | ⟨hworker, -⟩
      · simp only [weight, hworker, wait, hque, List.length_cons]
        omega
      · exact (hrunning (.inl hworker)).elim
  | pop worker hworker =>
      rcases hworker with ⟨hworker, rfl⟩ | ⟨hworker, -⟩
      · have hlength := List.length_pos_iff.mpr (hfed.dispatch (.inr hworker))
        simp only [weight, hworker, wait, List.length_tail]
        omega
      · exact (hrunning (.inr (.inl hworker))).elim

theorem weight_notify (hnotifying : state.notifying ≠ 0) :
    weight { state with worker := state.worker.notify, notifying := state.notifying - 1 }
      < state.weight := by
  simp only [weight]
  rcases state.worker.notify_eq with hsame | ⟨hblocked, hwoken⟩
  · rw [hsame]
    omega
  · rw [hblocked] at hwoken ⊢
    simp only [hwoken, wait]
    omega

variable (fun_callbacks_) in
/-- A running worker that is not blocked has a next step. -/
theorem exists_deal (hfed : Fed state) (hstop : state.b_stop_ = false)
    (hblocked : state.worker ≠ .blocked) :
    ∃ next, state.DealMsg fun_callbacks_ = some next := by
  cases hworker : state.worker with
  | blocked => exact absurd hworker hblocked
  | ended =>
      have := hfed.draining (.inr (.inr hworker))
      simp [hstop] at this
  | dispatch =>
      obtain ⟨msg, rest, hque⟩ := List.exists_cons_of_ne_nil (hfed.dispatch (.inl hworker))
      simp only [DealMsg, hworker, hque]
      split <;> exact ⟨_, rfl⟩
  | draining =>
      have := hfed.draining (.inl hworker)
      simp [hstop] at this
  | test =>
      simp only [DealMsg, hworker]
      split <;> exact ⟨_, rfl⟩
  | awake =>
      simp only [DealMsg, hworker]
      split <;> exact ⟨_, rfl⟩
  | _ => simp only [DealMsg, hworker]; exact ⟨_, rfl⟩

end Chat.LogicSystem

/-! ### The server -/

namespace ChatSessions

open Chat Chat.LogicSystem

variable {Id : Type} [DecidableEq Id] {fun_callbacks_ : Finset Int16} {server next : ChatSessions Id}
  {event : Event Id} {events : List (Event Id)}

inductive Moves (fun_callbacks_ : Finset Int16) (server : ChatSessions Id) :
    Event Id → ChatSessions Id → Prop where
  | Start (id : Id) (hnew : id ∉ server.started) :
      Moves fun_callbacks_ server (.Start id) { server with
        started := insert id server.started
        session := Function.update server.session id CSession.init.Start }
  | read (id : Id) (completion : Completion) (session : CSession) (hstarted : id ∈ server.started)
      (hread : CSession.step (server.session id) completion = some session)
      (hposted : session.posted = (server.session id).posted) :
      Moves fun_callbacks_ server (.read id completion) { server with
        session := Function.update server.session id session
        completions := Function.update server.completions id (server.completions id ++ [completion]) }
  | post (id : Id) (completion : Completion) (session : CSession) (msg : LogicNode Id)
      (hstarted : id ∈ server.started)
      (hread : CSession.step (server.session id) completion = some session)
      (hposted : session.posted = (server.session id).posted ++ [msg.recvnode_])
      (hsession : msg.session_ = id) (hfree : ¬ server.logic.worker.HoldsMutex) :
      Moves fun_callbacks_ server (.read id completion) { server with
        session := Function.update server.session id session
        logic := server.logic.PostMsgToQue msg
        completions := Function.update server.completions id (server.completions id ++ [completion]) }
  | logic (event : LogicSystem.Event Id) (logic : LogicSystem Id)
      (hevent : ∀ msg, event ≠ .post msg)
      (hstep : LogicSystem.step fun_callbacks_ server.logic event = some logic) :
      Moves fun_callbacks_ server (.logic event) { server with logic := logic }

omit [DecidableEq Id] in
/-- A node is posted when nobody holds the mutex, and only one whose bytes have been read. -/
theorem PostMsgToQue_eq_some {id : Id} {logic later : LogicSystem Id} {recvnode_ : RecvNode} :
    PostMsgToQue fun_callbacks_ id logic recvnode_ = some later ↔
      ∃ hlen : 0 ≤ recvnode_.total_len_.toInt, ¬ logic.worker.HoldsMutex ∧
        logic.PostMsgToQue ⟨id, recvnode_, hlen⟩ = later := by
  by_cases hlen : 0 ≤ recvnode_.total_len_.toInt
  · rw [PostMsgToQue, dif_pos hlen, LogicSystem.step, Option.ite_none_left_eq_some,
      Option.some.injEq]
    constructor
    · rintro ⟨hfree, hpost⟩
      exact ⟨hlen, hfree, hpost⟩
    · rintro ⟨_, hfree, hpost⟩
      exact ⟨hfree, hpost⟩
  · rw [PostMsgToQue, dif_neg hlen]
    constructor
    · intro hnone
      exact absurd hnone (by simp)
    · rintro ⟨hnonneg, -⟩
      exact absurd hnonneg hlen

theorem moves_of_step (hstep : step fun_callbacks_ server event = some next) :
    Moves fun_callbacks_ server event next := by
  cases event with
  | Start id =>
      obtain ⟨hnew, hnext⟩ := Option.ite_none_left_eq_some.mp hstep
      exact Option.some.inj hnext ▸ .Start id hnew
  | read id completion =>
      obtain ⟨hstarted, hstep⟩ := Option.ite_none_right_eq_some.mp hstep
      obtain ⟨session, hread, hstep⟩ := Option.bind_eq_some_iff.mp hstep
      obtain ⟨logic, hpost, rfl⟩ := Option.map_eq_some_iff.mp hstep
      rcases CSession.posted_of_step hread with hsame | ⟨node, hposted⟩
      · rw [hsame, List.drop_length] at hpost
        obtain rfl := Option.some.inj hpost
        exact .read id completion session hstarted hread hsame
      · rw [hposted, List.drop_left, List.foldlM_cons] at hpost
        obtain ⟨later, hfirst, hlast⟩ := Option.bind_eq_some_iff.mp hpost
        obtain rfl := Option.some.inj hlast
        obtain ⟨hlen, hfree, rfl⟩ := PostMsgToQue_eq_some.mp hfirst
        exact .post id completion session ⟨id, node, hlen⟩ hstarted hread hposted rfl hfree
  | logic event =>
      cases event with
      | post msg => exact absurd hstep (by simp [step])
      | _ =>
          obtain ⟨logic, hlogic, rfl⟩ := Option.map_eq_some_iff.mp hstep
          exact .logic _ logic nofun hlogic

/-- The messages that a session has posted are those of it that the worker has been given. -/
def postedOf (logic : LogicSystem Id) (id : Id) : List RecvNode :=
  (logic.posted.filter fun node => node.session_ = id).map LogicNode.recvnode_

structure Consistent (fun_callbacks_ : Finset Int16) (server : ChatSessions Id) : Prop where
  waiting : ∀ id ∉ server.started, server.session id = CSession.init ∧ server.completions id = []
  reading : ∀ id ∈ server.started,
    CSession.read (server.completions id) = some (server.session id)
  posted : ∀ id, postedOf server.logic id = (server.session id).posted
  ordered : Ordered fun_callbacks_ server.logic
  waking : Waking server.logic
  fed : Fed server.logic

theorem consistent_init : Consistent fun_callbacks_ (init : ChatSessions Id) :=
  ⟨fun _ _ => ⟨rfl, rfl⟩, by simp [init], fun _ => rfl, ordered_init, waking_init, fed_init⟩

theorem read_concat {completions : List Completion} {session later : CSession}
    {completion : Completion} (hread : CSession.read completions = some session)
    (hstep : CSession.step session completion = some later) :
    CSession.read (completions ++ [completion]) = some later :=
  Machine.run_concat_eq_some.mpr ⟨session, hread, hstep⟩

theorem Consistent.read (hserver : Consistent fun_callbacks_ server) {id : Id}
    {completion : Completion} {session : CSession} (hstarted : id ∈ server.started)
    (hread : CSession.step (server.session id) completion = some session) :
    (∀ other ∉ server.started,
      Function.update server.session id session other = CSession.init ∧
        Function.update server.completions id (server.completions id ++ [completion]) other = []) ∧
      ∀ other ∈ server.started,
        CSession.read
          (Function.update server.completions id (server.completions id ++ [completion]) other)
            = some (Function.update server.session id session other) := by
  constructor
  · intro other hother
    have hne : other ≠ id := fun h => hother (h ▸ hstarted)
    rw [Function.update_of_ne hne, Function.update_of_ne hne]
    exact hserver.waiting other hother
  · intro other hother
    by_cases hsame : other = id
    · subst hsame
      rw [Function.update_self, Function.update_self]
      exact read_concat (hserver.reading other hother) hread
    · rw [Function.update_of_ne hsame, Function.update_of_ne hsame]
      exact hserver.reading other hother

omit [DecidableEq Id] in
theorem posted_of_logic {logic later : LogicSystem Id} {event : LogicSystem.Event Id}
    (hevent : ∀ msg, event ≠ .post msg)
    (hstep : LogicSystem.step fun_callbacks_ logic event = some later) :
    later.posted = logic.posted := by
  cases LogicSystem.moves_of_step hstep with
  | post msg => exact absurd rfl (hevent msg)
  | deal hdeals => cases hdeals <;> rfl
  | _ => rfl

/-- What the logic system was given from a session is what the session has posted. -/
theorem Consistent.step (hserver : Consistent fun_callbacks_ server)
    (hstep : step fun_callbacks_ server event = some next) : Consistent fun_callbacks_ next := by
  cases moves_of_step hstep with
  | Start id hnew =>
      refine ⟨fun other hother => ?_, fun other hother => ?_, fun other => ?_, hserver.ordered,
        hserver.waking, hserver.fed⟩
      · obtain ⟨hne, hold⟩ := not_or.mp (Finset.mem_insert.not.mp hother)
        dsimp only
        rw [Function.update_of_ne hne]
        exact hserver.waiting other hold
      · dsimp only
        by_cases hsame : other = id
        · subst hsame
          rw [Function.update_self, (hserver.waiting other hnew).2]
          rfl
        · rw [Function.update_of_ne hsame]
          exact hserver.reading other (Finset.mem_of_mem_insert_of_ne hother hsame)
      · dsimp only
        rw [hserver.posted other]
        by_cases hsame : other = id
        · subst hsame
          rw [Function.update_self, (hserver.waiting other hnew).1]
          rfl
        · rw [Function.update_of_ne hsame]
  | read id completion session hstarted hread hposted =>
      obtain ⟨hwaiting, hreading⟩ := hserver.read hstarted hread
      refine ⟨hwaiting, hreading, fun other => ?_, hserver.ordered, hserver.waking, hserver.fed⟩
      dsimp only
      rw [hserver.posted other]
      by_cases hsame : other = id
      · subst hsame
        rw [Function.update_self, hposted]
      · rw [Function.update_of_ne hsame]
  | post id completion session msg hstarted hread hposted hsession hfree =>
      obtain ⟨hwaiting, hreading⟩ := hserver.read hstarted hread
      refine ⟨hwaiting, hreading, fun other => ?_, hserver.ordered.post hfree msg,
        hserver.waking.step (show LogicSystem.step fun_callbacks_ _ (.post msg) = _ from if_neg hfree),
        hserver.fed.post msg⟩
      have hold := hserver.posted other
      dsimp only
      rw [postedOf] at hold ⊢
      simp only [LogicSystem.PostMsgToQue, List.filter_append, List.map_append, hold]
      by_cases hsame : other = id
      · subst hsame
        simp [hposted, hsession]
      · have hne : ¬ msg.session_ = other := fun h => hsame (h.symm.trans hsession)
        simp [hsame, hne]
  | logic event logic hevent hlogic =>
      refine ⟨hserver.waiting, hserver.reading, fun other => ?_, hserver.ordered.step hlogic,
        hserver.waking.step hlogic, hserver.fed.step hlogic⟩
      dsimp only
      rw [postedOf, posted_of_logic hevent hlogic]
      exact hserver.posted other

theorem consistent_of_run (hrun : Machine.run (step fun_callbacks_) init events = some server) :
    Consistent fun_callbacks_ server :=
  Machine.run_invariant consistent_init (fun _ _ _ hstate hstep => hstate.step hstep) hrun

/-! ### In order -/

def messages (server : ChatSessions Id) (id : Id) : List (Int16 × Bytes) :=
  (wire.split (received (server.completions id))).1.map decode

def handled (fun_callbacks_ : Finset Int16) (msgs : List (Int16 × Bytes)) : List (Int16 × Bytes) :=
  msgs.filter fun msg => msg.1 ∈ fun_callbacks_

/-- Every header of a session announces a length that is refused or can be read. -/
def HeadersInRange (server : ChatSessions Id) : Prop :=
  ∀ id header, wire.ReadsHeader (received (server.completions id)) header →
    (headerLen header).toInt ≠ -1

/-- Of all calls, those for a session are those for the messages that it sent. -/
theorem filter_dispatched (msgs : List (LogicNode Id)) (id : Id) :
    ((dispatched fun_callbacks_ msgs).filter fun call => call.session = id).map
        (fun call => (call.msg_id, call.msg_data))
      = handled fun_callbacks_
          (((msgs.filter fun node => node.session_ = id).map LogicNode.recvnode_).map
            RecvNode.message) := by
  induction msgs with
  | nil => rfl
  | cons msg msgs ih =>
      have hcons : dispatched fun_callbacks_ (msg :: msgs) =
          dispatched fun_callbacks_ [msg] ++ dispatched fun_callbacks_ msgs := by
        rw [dispatched, dispatched, dispatched, ← List.map_append, ← List.filter_append,
          List.singleton_append]
      rw [hcons, List.filter_append, List.map_append, ih]
      by_cases hsession : msg.session_ = id
      · by_cases hmem : msg.recvnode_.msg_id_ ∈ fun_callbacks_
        · simp [dispatched, handled, hmem, hsession, LogicNode.call, RecvNode.message]
        · simp [dispatched, handled, hmem, hsession, RecvNode.message]
      · by_cases hmem : msg.recvnode_.msg_id_ ∈ fun_callbacks_
        · simp [dispatched, handled, hmem, hsession, LogicNode.call]
        · simp [dispatched, handled, hmem, hsession]

theorem handled_prefix {first second : List (Int16 × Bytes)} (hpre : first <+: second) :
    handled fun_callbacks_ first <+: handled fun_callbacks_ second := hpre.filter _

theorem Consistent.reads (hserver : Consistent fun_callbacks_ server)
    (hheaders : server.HeadersInRange) {id : Id} (hstarted : id ∈ server.started) :
    CSession.Reads (server.completions id) (server.session id) :=
  CSession.reads_of_headers (hserver.reading id hstarted) (hheaders id)

/-- What the worker has been given of a session are its first messages, and all of them once the
session has settled. -/
theorem Consistent.posted_isPrefix (hserver : Consistent fun_callbacks_ server)
    (hheaders : server.HeadersInRange) (id : Id) :
    (postedOf server.logic id).map RecvNode.message <+: server.messages id ∧
      ((id ∈ server.started → (server.session id).Settled) →
        (postedOf server.logic id).map RecvNode.message = server.messages id) := by
  rw [hserver.posted id]
  by_cases hstarted : id ∈ server.started
  · obtain ⟨hpre, hall⟩ := (hserver.reads hheaders hstarted).posted_isPrefix
    exact ⟨hpre, fun hsettled => hall (hsettled hstarted)⟩
  · obtain ⟨hsession, hcompletions⟩ := hserver.waiting id hstarted
    have hnone : server.messages id = [] := by
      rw [messages, hcompletions]
      rfl
    rw [hsession, hnone]
    exact ⟨List.prefix_rfl, fun _ => rfl⟩

/-- **In order, once each.** In every run the handler calls for a session are for the first of its
messages that have a handler. -/
theorem calls_in_order (hrun : Machine.run (step fun_callbacks_) init events = some server)
    (hheaders : server.HeadersInRange) (id : Id) :
    server.callsOf id <+: handled fun_callbacks_ (server.messages id) := by
  have hserver := consistent_of_run hrun
  obtain ⟨popped, hposted, hcalls⟩ := hserver.ordered.calls
  have hinHand : server.logic.inHand <+: server.logic.msg_que_ := by
    unfold inHand
    split
    · exact List.take_prefix _ _
    · exact List.take_prefix _ _
    · exact List.nil_prefix
  have hdone : popped ++ server.logic.inHand <+: server.logic.posted := by
    rw [hposted]
    exact (List.prefix_append_right_inj popped).mpr hinHand
  rw [callsOf, hcalls, filter_dispatched]
  refine handled_prefix (List.IsPrefix.trans ?_ (hserver.posted_isPrefix hheaders id).1)
  exact ((hdone.filter _).map _).map _

/-! ### All of them -/

/-- The worker, a poster that has posted, or a read of nothing goes on, or a session comes to the end of
its bytes. -/
def Event.Proceeds : Event Id → Prop
  | .read _ (.ok []) => True
  | .read _ .error => True
  | .logic .deal => True
  | .logic .notify => True
  | _ => False

omit [DecidableEq Id] in
theorem Event.proceeds_cases {event : Event Id} (hproceeds : event.Proceeds) :
    (∃ id, event = .read id (.ok [])) ∨ (∃ id, event = .read id .error) ∨
      event = .logic .deal ∨ event = .logic .notify := by
  unfold Event.Proceeds at hproceeds
  split at hproceeds
  · exact .inl ⟨_, rfl⟩
  · exact .inr (.inl ⟨_, rfl⟩)
  · exact .inr (.inr (.inl rfl))
  · exact .inr (.inr (.inr rfl))
  · exact hproceeds.elim

instance : DecidablePred (Event.Proceeds : Event Id → Prop) := fun event => by
  unfold Event.Proceeds
  split <;> infer_instance

structure Later (fun_callbacks_ : Finset Int16) (server later : ChatSessions Id) : Prop where
  consistent : Consistent fun_callbacks_ later
  bytes : ∀ id, received (later.completions id) = received (server.completions id)
  running : later.logic.b_stop_ = false

section Count

variable {β : Type} {P : β → Prop} [DecidablePred P] {started : Finset Id} {f : Id → β} {id : Id} {b : β}

theorem card_update_le (started : Finset Id) (f : Id → β) (id : Id) (hkept : P b → P (f id)) :
    (started.filter fun other => P (Function.update f id b other)).card
      ≤ (started.filter fun other => P (f other)).card := by
  refine Finset.card_le_card fun other hother => ?_
  obtain ⟨hmem, hother⟩ := Finset.mem_filter.mp hother
  refine Finset.mem_filter.mpr ⟨hmem, ?_⟩
  by_cases hsame : other = id
  · subst hsame
    rw [Function.update_self] at hother
    exact hkept hother
  · rwa [Function.update_of_ne hsame] at hother

/-- One session fewer has the property when a session of it loses it. -/
theorem card_update_lt (hstarted : id ∈ started) (hbefore : P (f id)) (hafter : ¬ P b) :
    (started.filter fun other => P (Function.update f id b other)).card
      < (started.filter fun other => P (f other)).card := by
  refine Finset.card_lt_card ((Finset.ssubset_iff_of_subset fun other hother => ?_).mpr ⟨id, ?_, ?_⟩)
  · obtain ⟨hmem, hother⟩ := Finset.mem_filter.mp hother
    refine Finset.mem_filter.mpr ⟨hmem, ?_⟩
    by_cases hsame : other = id
    · subst hsame
      exact hbefore
    · rwa [Function.update_of_ne hsame] at hother
  · exact Finset.mem_filter.mpr ⟨hstarted, hbefore⟩
  · rw [Finset.mem_filter, Function.update_self]
    exact fun h => hafter h.2

end Count

/-- The sessions whose last message has been received and not posted, those that still read, and what
is left for the worker. -/
def weight (server : ChatSessions Id) : Nat :=
  14 * (server.started.filter fun id => ¬ (server.session id).Settled).card +
    (server.started.filter fun id => (server.session id).pending ≠ none).card + server.logic.weight

theorem weight_settle {id : Id} {session : CSession} {msg : LogicNode Id}
    {completions : Id → List Completion} (hstarted : id ∈ server.started)
    (hbefore : ¬ (server.session id).Settled) (hafter : session.Settled) :
    weight { server with
        session := Function.update server.session id session
        logic := server.logic.PostMsgToQue msg
        completions := completions } < server.weight := by
  have hsettled := card_update_lt (P := fun session : CSession => ¬ session.Settled) hstarted hbefore
    (not_not_intro hafter)
  have hreading := card_update_le (P := fun session : CSession => session.pending ≠ none)
    (b := session) server.started server.session id fun _ hnone =>
      hbefore fun op hop => absurd (hnone.symm.trans hop) (by simp)
  have hpost := server.logic.weight_post msg
  simp only [weight]
  omega

/-- A session that comes to the end of its bytes has nothing left to post. -/
theorem weight_end {id : Id} {session : CSession} {completions : Id → List Completion}
    (hstarted : id ∈ server.started) (hbefore : (server.session id).pending ≠ none)
    (hafter : session.pending = none) :
    weight { server with
        session := Function.update server.session id session
        completions := completions } < server.weight := by
  have hsettled := card_update_le (P := fun session : CSession => ¬ session.Settled)
    (b := session) server.started server.session id fun hunsettled =>
      absurd (fun op hop => absurd (hafter.symm.trans hop) (by simp)) hunsettled
  have hreading := card_update_lt (P := fun session : CSession => session.pending ≠ none) hstarted
    hbefore (not_not_intro hafter)
  simp only [weight]
  omega

/-- **One step less.** Nothing is received, so the messages stay the same and less is left to do. -/
theorem Later.step {later : ChatSessions Id} (hlater : Later fun_callbacks_ server later)
    (hheaders : server.HeadersInRange) (hproceeds : event.Proceeds)
    (hstep : step fun_callbacks_ later event = some next) :
    Later fun_callbacks_ server next ∧ next.weight < later.weight := by
  have hkept := hlater.consistent.step hstep
  have hheaders : later.HeadersInRange := by
    intro id header hheader
    rw [hlater.bytes id] at hheader
    exact hheaders id header hheader
  -- Neither a read of nothing nor the end of the file brings bytes.
  have hreceived {completion : Completion} (hnothing : received [completion] = []) (id other : Id) :
      received (Function.update later.completions id (later.completions id ++ [completion]) other)
        = received (server.completions other) := by
    by_cases hsame : other = id
    · subst hsame
      rw [Function.update_self, received_append, hnothing, List.append_nil, hlater.bytes other]
    · rw [Function.update_of_ne hsame, hlater.bytes other]
  rcases Event.proceeds_cases hproceeds with ⟨id, rfl⟩ | ⟨id, rfl⟩ | rfl | rfl
  · cases moves_of_step hstep with
    | read _ _ session hstarted hread hposted =>
        obtain ⟨-, -, node, -, hnode⟩ := (hlater.consistent.reads hheaders hstarted).step_empty hread
        rw [hposted] at hnode
        exact absurd hnode (by simp)
    | post _ _ session msg hstarted hread hposted hsession hfree =>
        obtain ⟨hbefore, hafter, -⟩ := (hlater.consistent.reads hheaders hstarted).step_empty hread
        exact ⟨⟨hkept, hreceived rfl id, hlater.running⟩, weight_settle hstarted hbefore hafter⟩
  · cases moves_of_step hstep with
    | read _ _ session hstarted hread hposted =>
        obtain ⟨hbefore, hafter, -⟩ := CSession.step_end hread
        exact ⟨⟨hkept, hreceived rfl id, hlater.running⟩, weight_end hstarted hbefore hafter⟩
    | post _ _ session msg hstarted hread hposted hsession hfree =>
        obtain ⟨-, -, hsame⟩ := CSession.step_end hread
        rw [hposted] at hsame
        exact absurd hsame (by simp)
  · cases moves_of_step hstep with
    | logic _ logic _ hlogic =>
        cases LogicSystem.moves_of_step hlogic with
        | deal hdeals =>
            have hless := LogicSystem.weight_deal hlater.consistent.fed hlater.running hdeals
            refine ⟨⟨hkept, hlater.bytes, ?_⟩, ?_⟩
            · cases hdeals <;> exact hlater.running
            · simp only [weight]
              omega
  · cases moves_of_step hstep with
    | logic _ logic _ hlogic =>
        obtain ⟨hnotifying, hnext⟩ := Option.ite_none_left_eq_some.mp hlogic
        obtain rfl := Option.some.inj hnext
        have hless := LogicSystem.weight_notify hnotifying
        refine ⟨⟨hkept, hlater.bytes, hlater.running⟩, ?_⟩
        simp only [weight]
        omega

structure Rests (server : ChatSessions Id) : Prop where
  settled : ∀ id ∈ server.started, (server.session id).Settled
  blocked : server.logic.worker = .blocked
  empty : server.logic.msg_que_ = []

variable (fun_callbacks_) in
/-- As long as something is left, the worker or a poster or a read can go on. -/
theorem exists_step_of_not_rests (hserver : Consistent fun_callbacks_ server)
    (hheaders : server.HeadersInRange) (hrunning : server.logic.b_stop_ = false)
    (hrests : ¬ server.Rests) :
    ∃ event next, event.Proceeds ∧ step fun_callbacks_ server event = some next := by
  by_cases hblocked : server.logic.worker = .blocked
  · by_cases hnotifying : server.logic.notifying = 0
    · -- nobody is about to notify, so the queue is empty and a session has a message to post
      have hempty : server.logic.msg_que_ = [] := by
        by_contra hque
        have := hserver.waking.coming hblocked hque
        omega
      obtain ⟨id, hstarted, hunsettled⟩ :
          ∃ id ∈ server.started, ¬ (server.session id).Settled := by
        by_contra hnone
        refine hrests ⟨fun id hid => ?_, hblocked, hempty⟩
        by_contra hunsettled
        exact hnone ⟨id, hid, hunsettled⟩
      obtain ⟨session, hread⟩ := CSession.exists_step_empty hunsettled
      obtain ⟨-, -, node, haccepted, hposted⟩ := (hserver.reads hheaders hstarted).step_empty hread
      have hfree : ¬ server.logic.worker.HoldsMutex := by
        rw [hblocked]
        exact fun hholds => hholds
      obtain ⟨logic, hpost⟩ : ∃ logic, PostMsgToQue fun_callbacks_ id server.logic node = some logic :=
        ⟨_, PostMsgToQue_eq_some.mpr ⟨haccepted.1, hfree, rfl⟩⟩
      have hstep : ∃ next, step fun_callbacks_ server (.read id (.ok [])) = some next := by
        rw [step, if_pos hstarted, hread, Option.bind_some, hposted, List.drop_left,
          List.foldlM_cons, hpost]
        exact ⟨_, rfl⟩
      obtain ⟨next, hstep⟩ := hstep
      exact ⟨.read id (.ok []), next, trivial, hstep⟩
    · have hstep : ∃ next, step fun_callbacks_ server (.logic .notify) = some next := by
        rw [step, LogicSystem.step, if_neg hnotifying]
        · exact ⟨_, rfl⟩
        · simp
      obtain ⟨next, hstep⟩ := hstep
      exact ⟨.logic .notify, next, trivial, hstep⟩
  · obtain ⟨logic, hdeal⟩ := LogicSystem.exists_deal fun_callbacks_ hserver.fed hrunning hblocked
    refine ⟨.logic .deal, { server with logic := logic }, trivial, ?_⟩
    rw [step, LogicSystem.step, hdeal]
    · rfl
    · simp

/-- When nothing is left, the calls are those for all messages. -/
theorem callsOf_of_rests (hserver : Consistent fun_callbacks_ server)
    (hheaders : server.HeadersInRange) (hrests : server.Rests) (id : Id) :
    server.callsOf id = handled fun_callbacks_ (server.messages id) := by
  obtain ⟨popped, hposted, hcalls⟩ := hserver.ordered.calls
  have hinHand : server.logic.inHand = [] := by rw [inHand, hrests.blocked]
  rw [hrests.empty, List.append_nil] at hposted
  rw [hinHand, List.append_nil, ← hposted] at hcalls
  rw [callsOf, hcalls, filter_dispatched]
  exact congrArg _ ((hserver.posted_isPrefix hheaders id).2 fun hstarted => hrests.settled id hstarted)

/-- **All of them.** A server that has not been stopped, and receives nothing more but the ends of the
files, makes the handler calls for all messages of every session, on every way that is left to it. -/
theorem inevitable_handled (hrun : Machine.run (step fun_callbacks_) init events = some server)
    (hheaders : server.HeadersInRange) (hrunning : server.logic.b_stop_ = false) :
    Machine.Inevitable (Machine.only Event.Proceeds (step fun_callbacks_))
      (fun later => ∀ id, later.callsOf id = handled fun_callbacks_ (server.messages id)) server := by
  have hkept (later : ChatSessions Id) (event : Event Id) (next : ChatSessions Id)
      (hlater : Later fun_callbacks_ server later)
      (hstep : Machine.only Event.Proceeds (step fun_callbacks_) later event = some next) :
      Later fun_callbacks_ server next ∧ next.weight < later.weight := by
    obtain ⟨hproceeds, hstep⟩ := Machine.only_eq_some.mp hstep
    exact hlater.step hheaders hproceeds hstep
  have hlaterHeaders {later : ChatSessions Id} (hlater : Later fun_callbacks_ server later) :
      later.HeadersInRange := by
    intro id header hheader
    rw [hlater.bytes id] at hheader
    exact hheaders id header hheader
  have hstart : Later fun_callbacks_ server server :=
    ⟨consistent_of_run hrun, fun _ => rfl, hrunning⟩
  have hrests :
      Machine.Inevitable (Machine.only Event.Proceeds (step fun_callbacks_)) Rests server := by
    refine Machine.inevitable_of_wellFounded Nat.lt_wfRel.wf weight ?_ hkept hstart
    intro later hlater
    by_cases hrests : later.Rests
    · exact .inl hrests
    · obtain ⟨event, next, hproceeds, hstep⟩ := exists_step_of_not_rests fun_callbacks_
        hlater.consistent (hlaterHeaders hlater) hlater.running hrests
      exact .inr ⟨event, next, Machine.only_eq_some.mpr ⟨hproceeds, hstep⟩⟩
  have hboth := hrests.and_invariant (fun later event next hlater hstep =>
    (hkept later event next hlater hstep).1) hstart
  refine hboth.mono ?_
  rintro later ⟨hrests, hlater⟩ id
  rw [callsOf_of_rests hlater.consistent (hlaterHeaders hlater) hrests id, messages, messages,
    hlater.bytes id]

def twoSessions : List (Event Nat) :=
  [.Start 1, .Start 2, .read 1 (.ok [3, 237, 0, 2]), .read 2 (.ok [0, 7, 0, 0]),
    .read 1 (.ok [104, 105]), .logic .deal, .logic .deal, .logic .deal, .logic .deal]

theorem exists_twoSessions : ∃ server, Machine.run (step {1005}) init twoSessions = some server ∧
    server.HeadersInRange ∧ server.logic.b_stop_ = false ∧
    server.callsOf 1 = [(1005, [104, 105])] := by
  obtain ⟨server, hrun⟩ := Option.isSome_iff_exists.mp
    (show (Machine.run (step {1005}) init twoSessions).isSome = true by decide +kernel)
  have hends : ∀ server ∈ Machine.run (step {1005}) init twoSessions, server.started = {1, 2} ∧
      server.completions 1 = [.ok [3, 237, 0, 2], .ok [104, 105]] ∧
      server.completions 2 = [.ok [0, 7, 0, 0]] ∧ server.logic.b_stop_ = false ∧
      server.callsOf 1 = [(1005, [104, 105])] := by decide +kernel
  obtain ⟨hstarted, hfirst, hsecond, hrunning, hcalls⟩ := hends server hrun
  refine ⟨server, hrun, fun id header hheader => ?_, hrunning, hcalls⟩
  have hmem := Framing.Format.readsHeader_iff.mp hheader
  by_cases hid : id ∈ server.started
  · rw [hstarted, Finset.mem_insert, Finset.mem_singleton] at hid
    rcases hid with rfl | rfl
    · rw [hfirst, show wire.headers (received [.ok [3, 237, 0, 2], .ok [104, 105]])
        = [[3, 237, 0, 2]] by decide, List.mem_singleton] at hmem
      rw [hmem]
      decide
    · rw [hsecond, show wire.headers (received [.ok [0, 7, 0, 0]]) = [[0, 7, 0, 0]] by decide,
        List.mem_singleton] at hmem
      rw [hmem]
      decide
  · rw [((consistent_of_run hrun).waiting id hid).2,
      show wire.headers (received []) = [] by decide] at hmem
    exact absurd hmem List.not_mem_nil

theorem calls_in_order_two_sessions :
    ∃ server, Machine.run (step {1005}) init twoSessions = some server ∧
      server.callsOf 1 = [(1005, [104, 105])] ∧
      server.callsOf 1 <+: handled {1005} (server.messages 1) := by
  obtain ⟨server, hrun, hheaders, -, hcalls⟩ := exists_twoSessions
  exact ⟨server, hrun, hcalls, calls_in_order hrun hheaders 1⟩

theorem inevitable_handled_two_sessions :
    ∃ server, Machine.run (step {1005}) init twoSessions = some server ∧
      Machine.Inevitable (Machine.only Event.Proceeds (step {1005}))
        (fun later => ∀ id, later.callsOf id = handled {1005} (server.messages id)) server := by
  obtain ⟨server, hrun, hheaders, hrunning, -⟩ := exists_twoSessions
  exact ⟨server, hrun, inevitable_handled hrun hheaders hrunning⟩

end ChatSessions

end QuickChat
