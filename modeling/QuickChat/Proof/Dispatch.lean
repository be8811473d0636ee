import QuickChat.Chat.LogicSystem

/-!
# What the worker of the chat server dispatches

The posted messages are those that the worker has popped, in the order in which they were posted, and
those in the queue. The handlers have been called for the popped ones that have a handler, and for the
front of the queue between its call and its pop. When the worker sees the flag it holds the mutex, and
it keeps it until the queue is empty, so what has been posted by then is all that it dispatches.

A worker that waits while the queue is not empty has a notification coming: the post that made the
queue non-empty has yet to send it. So a posted message is only ever waiting for steps of the worker
and of posters that have posted already.
-/

namespace QuickChat.Chat.LogicSystem

open Machine

variable {Session : Type} {fun_callbacks_ : Finset Int16} {state next : LogicSystem Session}
  {event : Event Session} {events : List (Event Session)}

def dispatched (fun_callbacks_ : Finset Int16) (msgs : List (LogicNode Session)) :
    List (HandlerCall Session) :=
  (msgs.filter fun msg => msg.recvnode_.msg_id_ ∈ fun_callbacks_).map LogicNode.call

theorem dispatched_concat_of_mem {msgs : List (LogicNode Session)} {msg : LogicNode Session}
    (hmem : msg.recvnode_.msg_id_ ∈ fun_callbacks_) :
    dispatched fun_callbacks_ (msgs ++ [msg]) = dispatched fun_callbacks_ msgs ++ [msg.call] := by
  simp [dispatched, hmem]

theorem dispatched_concat_of_not_mem {msgs : List (LogicNode Session)} {msg : LogicNode Session}
    (hmem : msg.recvnode_.msg_id_ ∉ fun_callbacks_) :
    dispatched fun_callbacks_ (msgs ++ [msg]) = dispatched fun_callbacks_ msgs := by
  simp [dispatched, hmem]

/-- The message whose handler has been called and which has not been popped. -/
def inHand (state : LogicSystem Session) : List (LogicNode Session) :=
  match state.worker with
  | .popping => state.msg_que_.take 1
  | .drainPopping => state.msg_que_.take 1
  | _ => []

/-! ### What the worker can do -/

inductive Quiet (state : LogicSystem Session) : Worker → Prop where
  | lock (hworker : state.worker = .lock) : Quiet state .test
  | found (hworker : state.worker = .test) (hready : state.msg_que_ ≠ [] ∨ state.b_stop_) :
      Quiet state .awake
  | block (hworker : state.worker = .test) (hempty : state.msg_que_ = [])
      (hrunning : state.b_stop_ = false) : Quiet state .block
  | blocked (hworker : state.worker = .block) : Quiet state .blocked
  | woken (hworker : state.worker = .woken) : Quiet state .test
  | running (hworker : state.worker = .awake) (hrunning : state.b_stop_ = false) :
      Quiet state .dispatch
  | ended (hworker : state.worker = .draining) (hempty : state.msg_que_ = []) : Quiet state .ended

/-- One step of the worker. Each of the two loops calls a handler, skips a message that has none, and
pops after the call. -/
inductive Deals (fun_callbacks_ : Finset Int16) (state : LogicSystem Session) :
    LogicSystem Session → Prop where
  | quiet (worker : Worker) (hquiet : Quiet state worker) :
      Deals fun_callbacks_ state { state with worker := worker }
  | observe (hworker : state.worker = .awake) (hstop : state.b_stop_ = true) :
      Deals fun_callbacks_ state { state with worker := .draining, observed := some state.posted }
  | call (msg : LogicNode Session) (rest : List (LogicNode Session)) (worker : Worker)
      (hque : state.msg_que_ = msg :: rest) (hmem : msg.recvnode_.msg_id_ ∈ fun_callbacks_)
      (hworker : state.worker = .dispatch ∧ worker = .popping ∨
        state.worker = .draining ∧ worker = .drainPopping) :
      Deals fun_callbacks_ state { state with worker := worker, calls := state.calls ++ [msg.call] }
  | skip (msg : LogicNode Session) (rest : List (LogicNode Session)) (worker : Worker)
      (hque : state.msg_que_ = msg :: rest) (hmem : msg.recvnode_.msg_id_ ∉ fun_callbacks_)
      (hworker : state.worker = .dispatch ∧ worker = .lock ∨
        state.worker = .draining ∧ worker = .draining) :
      Deals fun_callbacks_ state { state with worker := worker, msg_que_ := rest }
  | pop (worker : Worker)
      (hworker : state.worker = .popping ∧ worker = .lock ∨
        state.worker = .drainPopping ∧ worker = .draining) :
      Deals fun_callbacks_ state { state with worker := worker, msg_que_ := state.msg_que_.tail }

/-- **Inversion of a step of the worker.** Its flags settle in which loop it is. -/
theorem deals_of_DealMsg (hstep : state.DealMsg fun_callbacks_ = some next) :
    Deals fun_callbacks_ state next := by
  cases hworker : state.worker with
  | lock =>
      simp only [DealMsg, hworker, Option.some.injEq] at hstep
      exact hstep ▸ .quiet _ (.lock hworker)
  | test =>
      simp only [DealMsg, hworker] at hstep
      split at hstep
      · rename_i hready
        exact Option.some.inj hstep ▸ .quiet _ (.found hworker hready)
      · rename_i hready
        rw [not_or, not_not, Bool.not_eq_true] at hready
        exact Option.some.inj hstep ▸ .quiet _ (.block hworker hready.1 hready.2)
  | block =>
      simp only [DealMsg, hworker, Option.some.injEq] at hstep
      exact hstep ▸ .quiet _ (.blocked hworker)
  | blocked =>
      simp only [DealMsg, hworker] at hstep
      exact absurd hstep (by simp)
  | woken =>
      simp only [DealMsg, hworker, Option.some.injEq] at hstep
      exact hstep ▸ .quiet _ (.woken hworker)
  | awake =>
      simp only [DealMsg, hworker] at hstep
      split at hstep
      · rename_i hstop
        exact Option.some.inj hstep ▸ .observe hworker hstop
      · rename_i hstop
        exact Option.some.inj hstep ▸ .quiet _ (.running hworker (Bool.not_eq_true _ ▸ hstop))
  | dispatch =>
      cases hque : state.msg_que_ with
      | nil =>
          simp only [DealMsg, hworker, hque] at hstep
          exact absurd hstep (by simp)
      | cons msg rest =>
          simp only [DealMsg, hworker, hque] at hstep
          split at hstep
          · rename_i hmem
            rw [← hque, Option.some.injEq] at hstep
            exact hstep ▸ .call msg rest _ hque hmem (.inl ⟨hworker, rfl⟩)
          · rename_i hmem
            exact Option.some.inj hstep ▸ .skip msg rest _ hque hmem (.inl ⟨hworker, rfl⟩)
  | popping =>
      simp only [DealMsg, hworker, Option.some.injEq] at hstep
      exact hstep ▸ .pop _ (.inl ⟨hworker, rfl⟩)
  | draining =>
      cases hque : state.msg_que_ with
      | nil =>
          simp only [DealMsg, hworker, hque] at hstep
          rw [← hque, Option.some.injEq] at hstep
          exact hstep ▸ .quiet _ (.ended hworker hque)
      | cons msg rest =>
          simp only [DealMsg, hworker, hque] at hstep
          split at hstep
          · rename_i hmem
            rw [← hque, Option.some.injEq] at hstep
            exact hstep ▸ .call msg rest _ hque hmem (.inr ⟨hworker, rfl⟩)
          · rename_i hmem
            exact Option.some.inj hstep ▸ .skip msg rest _ hque hmem (.inr ⟨hworker, rfl⟩)
  | drainPopping =>
      simp only [DealMsg, hworker, Option.some.injEq] at hstep
      exact hstep ▸ .pop _ (.inr ⟨hworker, rfl⟩)
  | ended =>
      simp only [DealMsg, hworker] at hstep
      exact absurd hstep (by simp)

inductive Moves (fun_callbacks_ : Finset Int16) (state : LogicSystem Session) :
    Event Session → LogicSystem Session → Prop where
  | post (msg : LogicNode Session) (hfree : ¬ state.worker.HoldsMutex) :
      Moves fun_callbacks_ state (.post msg) (state.PostMsgToQue msg)
  | notify : Moves fun_callbacks_ state .notify
      { state with worker := state.worker.notify, notifying := state.notifying - 1 }
  | deal {next : LogicSystem Session} (hdeals : Deals fun_callbacks_ state next) :
      Moves fun_callbacks_ state .deal next
  | spurious (hblocked : state.worker = .blocked) :
      Moves fun_callbacks_ state .spurious { state with worker := .woken }
  | stop : Moves fun_callbacks_ state .stop { state with b_stop_ := true, destructor := .stopped }
  | stopNotify (hstopped : state.destructor = .stopped) :
      Moves fun_callbacks_ state .stopNotify
        { state with worker := state.worker.notify, destructor := .notified }
  | join (hnotified : state.destructor = .notified) (hended : state.worker = .ended) :
      Moves fun_callbacks_ state .join { state with destructor := .joined }

theorem moves_of_step (hstep : step fun_callbacks_ state event = some next) :
    Moves fun_callbacks_ state event next := by
  cases event with
  | post msg =>
      obtain ⟨hfree, hnext⟩ := Option.ite_none_left_eq_some.mp hstep
      exact Option.some.inj hnext ▸ .post msg hfree
  | notify =>
      obtain ⟨-, hnext⟩ := Option.ite_none_left_eq_some.mp hstep
      exact Option.some.inj hnext ▸ .notify
  | deal => exact .deal (deals_of_DealMsg hstep)
  | spurious =>
      obtain ⟨hblocked, hnext⟩ := Option.ite_none_right_eq_some.mp hstep
      exact Option.some.inj hnext ▸ .spurious hblocked
  | stop =>
      obtain ⟨-, hnext⟩ := Option.ite_none_right_eq_some.mp hstep
      exact Option.some.inj hnext ▸ .stop
  | stopNotify =>
      obtain ⟨hstopped, hnext⟩ := Option.ite_none_right_eq_some.mp hstep
      exact Option.some.inj hnext ▸ .stopNotify hstopped
  | join =>
      obtain ⟨⟨hnotified, hended⟩, hnext⟩ := Option.ite_none_right_eq_some.mp hstep
      exact Option.some.inj hnext ▸ .join hnotified hended

/-! ### Order -/

/-- What has been popped has been dispatched; once the worker has seen the flag it holds the mutex
until the queue is empty, and nothing is posted meanwhile. -/
structure Ordered (fun_callbacks_ : Finset Int16) (state : LogicSystem Session) : Prop where
  calls : ∃ popped, state.posted = popped ++ state.msg_que_ ∧
    state.calls = dispatched fun_callbacks_ (popped ++ state.inHand)
  draining : state.worker = .draining ∨ state.worker = .drainPopping →
    state.observed = some state.posted
  ended : state.worker = .ended → ∃ seen, state.observed = some seen ∧
    state.posted = seen ++ state.msg_que_ ∧ state.calls = dispatched fun_callbacks_ seen

theorem ordered_init : Ordered fun_callbacks_ (init : LogicSystem Session) where
  calls := ⟨[], rfl, rfl⟩
  draining := by simp [init]
  ended := by simp [init]

/-- A message leaves the front of the queue only behind the call of its handler. -/
theorem Ordered.deal (hstate : Ordered fun_callbacks_ state)
    (hdeals : Deals fun_callbacks_ state next) : Ordered fun_callbacks_ next := by
  obtain ⟨⟨popped, hposted, hcalls⟩, hdraining, hended⟩ := hstate
  cases hdeals with
  | quiet worker hquiet =>
      cases hquiet with
      | ended hworker hempty =>
          rw [hempty, List.append_nil] at hposted
          rw [inHand, hworker, List.append_nil, ← hposted] at hcalls
          refine ⟨⟨popped, by rw [hempty, List.append_nil]; exact hposted, ?_⟩, by simp, fun _ =>
            ⟨state.posted, hdraining (.inl hworker), by rw [hempty, List.append_nil], hcalls⟩⟩
          rw [inHand, List.append_nil, ← hposted]
          exact hcalls
      | _ hworker =>
          rw [inHand, hworker] at hcalls
          exact ⟨⟨popped, hposted, hcalls⟩, by simp, by simp⟩
  | observe hworker hstop =>
      rw [inHand, hworker] at hcalls
      exact ⟨⟨popped, hposted, hcalls⟩, fun _ => rfl, by simp⟩
  | call msg rest worker hque hmem hworker =>
      have hinHand : state.inHand = [] := by
        rcases hworker with ⟨hworker, -⟩ | ⟨hworker, -⟩
        · rw [inHand, hworker]
        · rw [inHand, hworker]
      rw [hinHand, List.append_nil] at hcalls
      have hnow : state.calls ++ [msg.call] =
          dispatched fun_callbacks_ (popped ++ state.msg_que_.take 1) := by
        rw [hque, List.take_one, List.head?_cons, Option.toList_some,
          dispatched_concat_of_mem hmem, hcalls]
      rcases hworker with ⟨hworker, rfl⟩ | ⟨hworker, rfl⟩
      · exact ⟨⟨popped, hposted, hnow⟩, by simp, by simp⟩
      · exact ⟨⟨popped, hposted, hnow⟩, fun _ => hdraining (.inl hworker), by simp⟩
  | skip msg rest worker hque hmem hworker =>
      have hinHand : state.inHand = [] := by
        rcases hworker with ⟨hworker, -⟩ | ⟨hworker, -⟩
        · rw [inHand, hworker]
        · rw [inHand, hworker]
      rw [hinHand, List.append_nil] at hcalls
      have hnow : state.calls = dispatched fun_callbacks_ ((popped ++ [msg]) ++ []) := by
        rw [List.append_nil, dispatched_concat_of_not_mem hmem, hcalls]
      rw [hque] at hposted
      have hposted : state.posted = (popped ++ [msg]) ++ rest := by
        rw [hposted, List.append_assoc, List.singleton_append]
      rcases hworker with ⟨hworker, rfl⟩ | ⟨hworker, rfl⟩
      · exact ⟨⟨_, hposted, hnow⟩, by simp, by simp⟩
      · exact ⟨⟨_, hposted, hnow⟩, fun _ => hdraining (.inl hworker), by simp⟩
  | pop worker hworker =>
      have hinHand : state.inHand = state.msg_que_.take 1 := by
        rcases hworker with ⟨hworker, -⟩ | ⟨hworker, -⟩
        · rw [inHand, hworker]
        · rw [inHand, hworker]
      rw [hinHand] at hcalls
      have hposted : state.posted = (popped ++ state.msg_que_.take 1) ++ state.msg_que_.tail := by
        rw [hposted, List.append_assoc, ← List.drop_one, List.take_append_drop]
      have hnow : state.calls =
          dispatched fun_callbacks_ ((popped ++ state.msg_que_.take 1) ++ []) := by
        rw [List.append_nil, hcalls]
      rcases hworker with ⟨hworker, rfl⟩ | ⟨hworker, rfl⟩
      · exact ⟨⟨_, hposted, hnow⟩, by simp, by simp⟩
      · exact ⟨⟨_, hposted, hnow⟩, fun _ => hdraining (.inr hworker), by simp⟩

theorem inHand_of_free (hfree : ¬ state.worker.HoldsMutex) : state.inHand = [] := by
  cases hworker : state.worker with
  | popping =>
      rw [hworker] at hfree
      exact absurd trivial hfree
  | drainPopping =>
      rw [hworker] at hfree
      exact absurd trivial hfree
  | _ => simp only [inHand, hworker]

theorem Ordered.post (hstate : Ordered fun_callbacks_ state) (hfree : ¬ state.worker.HoldsMutex)
    (msg : LogicNode Session) : Ordered fun_callbacks_ (state.PostMsgToQue msg) := by
  obtain ⟨⟨popped, hposted, hcalls⟩, -, hended⟩ := hstate
  refine ⟨⟨popped, ?_, ?_⟩, ?_, fun hworker => ?_⟩
  · simp only [PostMsgToQue, hposted, List.append_assoc]
  · rw [inHand_of_free hfree] at hcalls
    have hnext : (state.PostMsgToQue msg).inHand = [] := inHand_of_free hfree
    rw [hnext]
    exact hcalls
  · rintro (hworker | hworker)
    · exact absurd (hworker ▸ trivial : state.worker.HoldsMutex) hfree
    · exact absurd (hworker ▸ trivial : state.worker.HoldsMutex) hfree
  · obtain ⟨seen, hobserved, hseen, hcalls⟩ := hended hworker
    exact ⟨seen, hobserved, by simp only [PostMsgToQue, hseen, List.append_assoc], hcalls⟩

theorem Ordered.wake (hstate : Ordered fun_callbacks_ state) {worker : Worker}
    (hworker : worker = state.worker ∨ state.worker = .blocked ∧ worker = .woken) (b_stop_ : Bool)
    (destructor : Destructor) (notifying : Nat) :
    Ordered fun_callbacks_ { state with
      b_stop_ := b_stop_, worker := worker, destructor := destructor, notifying := notifying } := by
  obtain ⟨⟨popped, hposted, hcalls⟩, hdraining, hended⟩ := hstate
  rcases hworker with rfl | ⟨hblocked, rfl⟩
  · exact ⟨⟨popped, hposted, hcalls⟩, hdraining, hended⟩
  · rw [inHand, hblocked] at hcalls
    exact ⟨⟨popped, hposted, hcalls⟩, by simp, by simp⟩

theorem Ordered.step (hstate : Ordered fun_callbacks_ state)
    (hstep : LogicSystem.step fun_callbacks_ state event = some next) :
    Ordered fun_callbacks_ next := by
  cases moves_of_step hstep with
  | post msg hfree => exact hstate.post hfree msg
  | notify => exact hstate.wake (Worker.notify_eq _) _ _ _
  | deal hdeals => exact hstate.deal hdeals
  | spurious hblocked => exact hstate.wake (.inr ⟨hblocked, rfl⟩) _ _ _
  | stop => exact hstate.wake (.inl rfl) _ _ _
  | stopNotify => exact hstate.wake (Worker.notify_eq _) _ _ _
  | join => exact hstate.wake (.inl rfl) _ _ _

/-! ### Notifications -/

/-- The worker only goes to sleep on an empty queue, and sleeps on a non-empty one only until the
notification of the post that found it empty. -/
structure Waking (state : LogicSystem Session) : Prop where
  empty : state.worker = .block → state.msg_que_ = []
  coming : state.worker = .blocked → state.msg_que_ ≠ [] → 0 < state.notifying
  stop : state.b_stop_ = true ↔ state.destructor ≠ .none
  joined : state.destructor = .joined → state.worker = .ended

theorem waking_init : Waking (init : LogicSystem Session) := by
  constructor <;> simp [init]

theorem Waking.of_working (hstate : Waking state) (hworker : state.worker ≠ .ended)
    (hblock : next.worker ≠ .block) (hblocked : next.worker ≠ .blocked)
    (hstop : next.b_stop_ = state.b_stop_) (hdestructor : next.destructor = state.destructor) :
    Waking next where
  empty h := absurd h hblock
  coming h := absurd h hblocked
  stop := by
    rw [hstop, hdestructor]
    exact hstate.stop
  joined h := absurd (hstate.joined (hdestructor ▸ h)) hworker

/-- The worker goes to sleep only where the queue is empty and no stop has been seen. -/
theorem Waking.deal (hstate : Waking state) (hdeals : Deals fun_callbacks_ state next) :
    Waking next := by
  cases hdeals with
  | quiet worker hquiet =>
      cases hquiet with
      | block hworker hque hrunning =>
          exact ⟨fun _ => hque, by simp, hstate.stop,
            fun h => absurd (hstate.joined h) (by simp [hworker])⟩
      | blocked hworker =>
          exact ⟨by simp, fun _ hque => absurd (hstate.empty hworker) hque, hstate.stop,
            fun h => absurd (hstate.joined h) (by simp [hworker])⟩
      | ended hworker hque => exact ⟨by simp, by simp, hstate.stop, fun _ => rfl⟩
      | _ hworker => exact hstate.of_working (by simp [hworker]) (by simp) (by simp) rfl rfl
  | observe hworker _ => exact hstate.of_working (by simp [hworker]) (by simp) (by simp) rfl rfl
  | call msg rest worker _ _ hworker =>
      rcases hworker with ⟨hworker, rfl⟩ | ⟨hworker, rfl⟩
      · exact hstate.of_working (by simp [hworker]) (by simp) (by simp) rfl rfl
      · exact hstate.of_working (by simp [hworker]) (by simp) (by simp) rfl rfl
  | skip msg rest worker _ _ hworker =>
      rcases hworker with ⟨hworker, rfl⟩ | ⟨hworker, rfl⟩
      · exact hstate.of_working (by simp [hworker]) (by simp) (by simp) rfl rfl
      · exact hstate.of_working (by simp [hworker]) (by simp) (by simp) rfl rfl
  | pop worker hworker =>
      rcases hworker with ⟨hworker, rfl⟩ | ⟨hworker, rfl⟩
      · exact hstate.of_working (by simp [hworker]) (by simp) (by simp) rfl rfl
      · exact hstate.of_working (by simp [hworker]) (by simp) (by simp) rfl rfl

/-- A post that finds the queue empty owes a notification, and whoever sleeps beside messages gets
it. -/
theorem Waking.step (hstate : Waking state)
    (hstep : LogicSystem.step fun_callbacks_ state event = some next) : Waking next := by
  have hnotify (worker : Worker) : worker.notify = .block ↔ worker = .block := by
    cases worker <;> decide
  have hended (worker : Worker) : worker = .ended → worker.notify = .ended := by
    rintro rfl
    rfl
  obtain ⟨hempty, hcoming, hstop, hjoined⟩ := hstate
  cases moves_of_step hstep with
  | post msg hfree =>
      refine ⟨fun hworker => absurd (hworker ▸ trivial : state.worker.HoldsMutex) hfree,
        fun hblocked _ => ?_, hstop, hjoined⟩
      -- the post that finds the queue empty is about to notify, and later ones add nothing
      simp only [PostMsgToQue]
      split
      · exact Nat.succ_pos _
      · rename_i hlength
        refine hcoming hblocked fun hque => hlength ?_
        rw [hque, List.nil_append, List.length_singleton]
  | notify =>
      exact ⟨fun hworker => hempty ((hnotify _).mp hworker),
        fun hblocked => absurd hblocked (Worker.notify_ne_blocked _), hstop,
        fun hjoin => hended _ (hjoined hjoin)⟩
  | deal hdeals => exact Waking.deal ⟨hempty, hcoming, hstop, hjoined⟩ hdeals
  | spurious hblocked =>
      exact ⟨by simp, by simp, hstop, fun hjoin => absurd (hjoined hjoin) (by simp [hblocked])⟩
  | stop => exact ⟨hempty, hcoming, by simp, by simp⟩
  | stopNotify hstopped =>
      exact ⟨fun hworker => hempty ((hnotify _).mp hworker),
        fun hblocked => absurd hblocked (Worker.notify_ne_blocked _),
        by simpa [hstopped] using hstop, by simp⟩
  | join hnotified hworker =>
      exact ⟨hempty, hcoming, by simpa [hnotified] using hstop, fun _ => hworker⟩

theorem invariants_of_run (hrun : run (step fun_callbacks_) init events = some state) :
    Ordered fun_callbacks_ state ∧ Waking state :=
  run_invariant (P := fun state => Ordered fun_callbacks_ state ∧ Waking state)
    ⟨ordered_init, waking_init⟩
    (fun _ _ _ hstate hstep => ⟨hstate.1.step hstep, hstate.2.step hstep⟩) hrun

/-! ### Everything posted can be dispatched -/

def rank : Worker → Nat
  | .block => 8
  | .blocked => 7
  | .woken => 6
  | .lock => 6
  | .test => 5
  | .awake => 4
  | .dispatch => 3
  | .draining => 2
  | .popping => 1
  | .drainPopping => 1
  | .ended => 0

def remaining (state : LogicSystem Session) : Nat :=
  8 * state.msg_que_.length + rank state.worker

variable (fun_callbacks_) in
/-- A worker that has not ended gets on with a non-empty queue, or is about to be notified. -/
theorem exists_step (hwaking : Waking state) (hworker : state.worker ≠ .ended)
    (hque : state.msg_que_ ≠ []) :
    ∃ event next, (event = .deal ∨ event = .notify) ∧
      step fun_callbacks_ state event = some next ∧ next.posted = state.posted ∧
      next.worker ≠ .ended ∧ next.remaining < state.remaining := by
  obtain ⟨msg, rest, hque⟩ := List.exists_cons_of_ne_nil hque
  have hlength : state.msg_que_.length = rest.length + 1 := by rw [hque, List.length_cons]
  cases hat : state.worker with
  | ended => exact absurd hat hworker
  | blocked =>
      have hnotifying := hwaking.coming hat (by simp [hque])
      refine ⟨.notify, _, .inr rfl, if_neg hnotifying.ne', rfl, ?_, ?_⟩
      · simp [hat, Worker.notify]
      · simp [remaining, hat, Worker.notify, rank]
  | block => exact absurd (hwaking.empty hat) (by simp [hque])
  | test =>
      refine ⟨.deal, { state with worker := .awake }, .inl rfl, ?_, rfl, by simp, ?_⟩
      · simp [step, DealMsg, hat, hque]
      · simp [remaining, hat, rank]
  | awake =>
      by_cases hstop : state.b_stop_ = true
      · refine ⟨.deal, { state with worker := .draining, observed := some state.posted }, .inl rfl,
          ?_, rfl, by simp, ?_⟩
        · simp [step, DealMsg, hat, hstop]
        · simp [remaining, hat, rank]
      · refine ⟨.deal, { state with worker := .dispatch }, .inl rfl, ?_, rfl, by simp, ?_⟩
        · simp [step, DealMsg, hat, hstop]
        · simp [remaining, hat, rank]
  | dispatch =>
      by_cases hmem : msg.recvnode_.msg_id_ ∈ fun_callbacks_
      · refine ⟨.deal, { state with worker := .popping, calls := state.calls ++ [msg.call] },
          .inl rfl, ?_, rfl, by simp, ?_⟩
        · simp [step, DealMsg, hat, hque, hmem]
        · simp [remaining, hat, rank]
      · refine ⟨.deal, { state with worker := .lock, msg_que_ := rest }, .inl rfl, ?_, rfl,
          by simp, ?_⟩
        · simp [step, DealMsg, hat, hque, hmem]
        · simp only [remaining, hat, rank, hlength]
          omega
  | draining =>
      by_cases hmem : msg.recvnode_.msg_id_ ∈ fun_callbacks_
      · refine ⟨.deal, { state with worker := .drainPopping, calls := state.calls ++ [msg.call] },
          .inl rfl, ?_, rfl, by simp, ?_⟩
        · simp [step, DealMsg, hat, hque, hmem]
        · simp [remaining, hat, rank]
      · refine ⟨.deal, { state with msg_que_ := rest }, .inl rfl, ?_, rfl, hworker, ?_⟩
        · simp [step, DealMsg, hat, hque, hmem]
        · simp only [remaining, hlength]
          omega
  | popping =>
      refine ⟨.deal, { state with worker := .lock, msg_que_ := state.msg_que_.tail }, .inl rfl, ?_,
        rfl, by simp, ?_⟩
      · simp [step, DealMsg, hat]
      · simp only [remaining, hat, rank, List.length_tail]
        omega
  | drainPopping =>
      refine ⟨.deal, { state with worker := .draining, msg_que_ := state.msg_que_.tail }, .inl rfl,
        ?_, rfl, by simp, ?_⟩
      · simp [step, DealMsg, hat]
      · simp only [remaining, hat, rank, List.length_tail]
        omega
  | lock =>
      refine ⟨.deal, { state with worker := .test }, .inl rfl, ?_, rfl, by simp, ?_⟩
      · simp [step, DealMsg, hat]
      · simp [remaining, hat, rank]
  | woken =>
      refine ⟨.deal, { state with worker := .test }, .inl rfl, ?_, rfl, by simp, ?_⟩
      · simp [step, DealMsg, hat]
      · simp [remaining, hat, rank]

/-- The worker is not stuck before it has emptied the queue: by induction on the steps that it
needs. -/
theorem exists_dispatched (hordered : Ordered fun_callbacks_ state) (hwaking : Waking state)
    (hworker : state.worker ≠ .ended) :
    ∃ more later, (∀ event ∈ more, event = .deal ∨ event = .notify) ∧
      run (step fun_callbacks_) state more = some later ∧
      later.calls = dispatched fun_callbacks_ state.posted := by
  induction hremaining : state.remaining using Nat.strong_induction_on generalizing state with
  | h n ih =>
      by_cases hque : state.msg_que_ = []
      · obtain ⟨popped, hposted, hcalls⟩ := hordered.calls
        have hinHand : state.inHand = [] := by
          unfold inHand
          split <;> simp [hque]
        rw [hinHand, List.append_nil] at hcalls
        rw [hque, List.append_nil] at hposted
        exact ⟨[], state, by simp, rfl, by rw [hcalls, hposted]⟩
      · obtain ⟨event, next, hevent, hstep, hposted, hnext, hless⟩ :=
          exists_step fun_callbacks_ hwaking hworker hque
        obtain ⟨more, later, hmore, hrun, hcalls⟩ := ih next.remaining (hremaining ▸ hless)
          (hordered.step hstep) (hwaking.step hstep) hnext rfl
        refine ⟨event :: more, later, ?_, ?_, by rw [hcalls, hposted]⟩
        · exact List.forall_mem_cons.mpr ⟨hevent, hmore⟩
        · rw [run_cons, hstep]
          exact hrun

/-- The handlers are called for the posted messages in their order, once each: for those that have been
popped, and for the front of the queue if its handler has returned. When the worker has ended, they
have been called for all that had been posted when it saw the flag. Until then, the worker and the
notifications of posters that have posted are enough to get all that is posted dispatched. -/
structure DispatchesInOrder (fun_callbacks_ : Finset Int16) (state : LogicSystem Session) :
    Prop where
  calls : ∃ popped, state.posted = popped ++ state.msg_que_ ∧
    state.calls = dispatched fun_callbacks_ (popped ++ state.inHand)
  ended : state.worker = .ended → ∃ seen, state.observed = some seen ∧
    state.posted = seen ++ state.msg_que_ ∧ state.calls = dispatched fun_callbacks_ seen
  coming : state.worker ≠ .ended → ∃ more later, (∀ event ∈ more, event = .deal ∨ event = .notify) ∧
    run (step fun_callbacks_) state more = some later ∧
    later.calls = dispatched fun_callbacks_ state.posted

/-- **Dispatch.** Every run dispatches the posted messages in order, without loss and once each. -/
theorem dispatches_in_order (hrun : run (step fun_callbacks_) init events = some state) :
    DispatchesInOrder fun_callbacks_ state := by
  obtain ⟨hordered, hwaking⟩ := invariants_of_run hrun
  exact ⟨hordered.calls, hordered.ended, exists_dispatched hordered hwaking⟩

def loginNode : LogicNode Nat := ⟨1, ⟨⟨0, 2, [104, 105, 0], by decide⟩, 1005⟩, by decide⟩

def unknownNode : LogicNode Nat := ⟨2, ⟨⟨0, 0, [0], by decide⟩, 7⟩, by decide⟩

def twoMessages : List (Event Nat) :=
  [.deal, .deal, .deal, .post unknownNode, .post loginNode, .notify, .deal, .deal, .deal, .deal,
    .stop, .deal, .deal, .deal, .deal, .deal, .deal]

theorem dispatches_two_messages :
    ∃ state, run (step {1005}) init twoMessages = some state ∧ state.worker = .ended ∧
      state.calls = [⟨1, 1005, [104, 105]⟩] ∧ DispatchesInOrder {1005} state := by
  obtain ⟨state, hrun⟩ : ∃ state, run (step {1005}) init twoMessages = some state := ⟨_, rfl⟩
  have hends : ∀ state ∈ run (step {1005}) init twoMessages,
      state.worker = .ended ∧ state.calls = [⟨1, 1005, [104, 105]⟩] := by
    decide
  exact ⟨state, hrun, (hends state hrun).1, (hends state hrun).2, dispatches_in_order hrun⟩

end QuickChat.Chat.LogicSystem
