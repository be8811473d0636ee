import QuickChat.Chat.SendQueue

/-!
# One write at a time

While no write has failed, a queue is either empty with no write outstanding, or has a front node
whose buffer is the one outstanding write. After a failure nothing is outstanding any more and the
front node is still there, so no `Send` finds the queue empty again.
-/

namespace QuickChat

namespace SendQueue

/-- Nothing to write, or the front node is being written. -/
inductive Writing (queue : SendQueue) : Prop where
  | idle (hqueue : queue.send_que_ = []) (houtstanding : queue.outstanding = [])
  | front (msgnode : SendNode) (rest : List SendNode) (hqueue : queue.send_que_ = msgnode :: rest)
      (houtstanding : queue.outstanding = [msgnode.content])

/-- The invariant: what has been given to `async_write` and what waits behind the front node are,
together and in order, the frames of the accepted calls. -/
structure Disciplined (queue : SendQueue) : Prop where
  open_writing : queue.failed = false → Writing queue
  failed_idle : queue.failed = true → queue.outstanding = [] ∧ queue.send_que_ ≠ []
  not_popped : queue.poppedEmpty = false
  in_order : queue.written ++ (queue.send_que_.tail.map fun node => node.content)
    = queue.accepted.map SendCall.frame

variable {queue : SendQueue}

theorem disciplined_init : Disciplined init :=
  ⟨fun _ => .idle rfl rfl, by simp [init], rfl, rfl⟩

theorem frame_of_new {call : SendCall} {node : SendNode} {writes : List Memory.Span}
    (hnew : SendNode.new call.msg call.max_length call.msgid = .ok (node, writes)) :
    call.frame = node.content := by
  rw [SendCall.frame, SendNode.bytes, hnew]

theorem emplace_cases (queue : SendQueue) (call : SendCall) :
    queue.emplace call = queue ∨
      ∃ node : SendNode, call.frame = node.content ∧
        (queue.send_que_ ≠ [] ∧ queue.emplace call =
            { queue with
              send_que_ := queue.send_que_ ++ [node], accepted := queue.accepted ++ [call] } ∨
          queue.send_que_ = [] ∧ queue.emplace call =
            { queue with
              send_que_ := [node]
              accepted := queue.accepted ++ [call]
              outstanding := queue.outstanding ++ [node.content]
              written := queue.written ++ [node.content] }) := by
  by_cases hfull : queue.send_que_.length > MAX_SENDQUE
  · exact .inl (by rw [emplace, if_pos hfull])
  cases hnew : SendNode.new call.msg call.max_length call.msgid with
  | error size => exact .inl (by simp only [emplace, if_neg hfull, hnew])
  | ok result =>
      obtain ⟨node, writes⟩ := result
      refine .inr ⟨node, frame_of_new hnew, ?_⟩
      cases hqueue : queue.send_que_ with
      | nil =>
          refine .inr ⟨rfl, ?_⟩
          simp [emplace, hnew, hqueue, async_write]
      | cons front rest =>
          rw [hqueue] at hfull
          refine .inl ⟨List.cons_ne_nil _ _, ?_⟩
          simp only [emplace, hqueue, hnew, List.length_cons, Nat.succ_pos, gt_iff_lt, if_true]
          exact if_neg hfull

/-- The queue is not over its bound, and the `SendNode` constructor does not throw. -/
def Takes (queue : SendQueue) (call : SendCall) : Prop :=
  queue.send_que_.length ≤ MAX_SENDQUE ∧
    ∃ made, SendNode.new call.msg call.max_length call.msgid = .ok made

theorem emplace_of_not_takes {call : SendCall} (htakes : ¬ queue.Takes call) :
    queue.emplace call = queue := by
  by_cases hfull : queue.send_que_.length > MAX_SENDQUE
  · rw [emplace, if_pos hfull]
  cases hnew : SendNode.new call.msg call.max_length call.msgid with
  | error size => simp only [emplace, if_neg hfull, hnew]
  | ok made => exact absurd ⟨not_lt.mp hfull, made, hnew⟩ htakes

theorem accepted_of_takes {call : SendCall} (htakes : queue.Takes call) :
    (queue.emplace call).accepted = queue.accepted ++ [call] := by
  obtain ⟨hroom, ⟨node, writes⟩, hnew⟩ := htakes
  simp only [emplace, if_neg (not_lt.mpr hroom), hnew]
  split
  · rfl
  · split <;> rfl

theorem accepted_emplace_iff (call : SendCall) :
    (queue.emplace call).accepted = queue.accepted ++ [call] ↔ queue.Takes call := by
  refine ⟨fun haccepted => ?_, accepted_of_takes⟩
  by_contra htakes
  rw [emplace_of_not_takes htakes] at haccepted
  exact absurd (congrArg List.length haccepted) (by simp)

/-- A write is started only for the node that finds the queue empty. -/
theorem Disciplined.emplace (hqueue : Disciplined queue) (call : SendCall) :
    Disciplined (queue.emplace call) := by
  rcases emplace_cases queue call with hsame | ⟨node, hframe, ⟨hne, heq⟩ | ⟨hnil, heq⟩⟩
  · rwa [hsame]
  · rw [heq]
    refine ⟨fun hopen => ?_, fun hfailed => ⟨(hqueue.failed_idle hfailed).1, by simp⟩,
      hqueue.not_popped, ?_⟩
    · cases hqueue.open_writing hopen with
      | idle hnil => exact absurd hnil hne
      | front msgnode rest hfront houtstanding =>
          exact .front msgnode (rest ++ [node]) (by simp [hfront]) houtstanding
    · rw [List.tail_append_of_ne_nil hne, List.map_append, ← List.append_assoc, hqueue.in_order,
        List.map_append, List.map_singleton, List.map_singleton, hframe]
  · rw [heq]
    have hopen : queue.failed = false := by
      by_contra hfailed
      exact (hqueue.failed_idle (by simpa using hfailed)).2 hnil
    refine ⟨fun _ => ?_, fun hfailed => absurd hfailed (by simp [hopen]), hqueue.not_popped, ?_⟩
    · cases hqueue.open_writing hopen with
      | idle _ houtstanding => exact .front node [] rfl (by simp [houtstanding])
      | front msgnode rest hfront => exact absurd (hnil.symm.trans hfront) (by simp)
    · have hin_order := hqueue.in_order
      rw [hnil, List.tail_nil, List.map_nil, List.append_nil] at hin_order
      simp only [List.tail_cons, List.map_nil, List.append_nil, List.map_append, List.map_cons,
        hin_order, hframe]

/-- The completed write was that of the front node, so the next one is in order. -/
theorem Disciplined.complete (hqueue : Disciplined queue) {index : Nat} (error : Bool)
    (hindex : index < queue.outstanding.length) :
    Disciplined
      ({ queue with outstanding := queue.outstanding.eraseIdx index }.HandleWrite error) := by
  have hopen : queue.failed = false := by
    by_contra hfailed
    rw [(hqueue.failed_idle (by simpa using hfailed)).1] at hindex
    exact absurd hindex (Nat.not_lt_zero _)
  cases hqueue.open_writing hopen with
  | idle _ houtstanding =>
      rw [houtstanding] at hindex
      exact absurd hindex (Nat.not_lt_zero _)
  | front msgnode rest hfront houtstanding =>
      have hin_order := hqueue.in_order
      rw [hfront, List.tail_cons] at hin_order
      have hzero : index = 0 := by
        rw [houtstanding, List.length_singleton] at hindex
        omega
      subst hzero
      rw [houtstanding, List.eraseIdx_zero, List.tail_cons]
      cases error with
      | true =>
          refine ⟨fun hfailed => absurd hfailed (by simp [HandleWrite]),
            fun _ => ⟨rfl, by simp [HandleWrite, hfront]⟩, hqueue.not_popped, ?_⟩
          simpa [HandleWrite, hfront] using hin_order
      | false =>
          cases rest with
          | nil =>
              simp only [HandleWrite, hfront, Bool.false_eq_true, if_false]
              exact ⟨fun _ => .idle rfl rfl, fun hfailed => absurd hfailed (by simp [hopen]),
                hqueue.not_popped, hin_order⟩
          | cons next rest =>
              simp only [HandleWrite, hfront, async_write, Bool.false_eq_true, if_false,
                List.nil_append]
              refine ⟨fun _ => .front next rest rfl rfl,
                fun hfailed => absurd hfailed (by simp [hopen]), hqueue.not_popped, ?_⟩
              simpa using hin_order

theorem Disciplined.step {event : Event} {next : SendQueue} (hqueue : Disciplined queue)
    (hstep : step queue event = some next) : Disciplined next := by
  cases event with
  | send msg max_length msgid =>
      rw [SendQueue.step, Option.some.injEq] at hstep
      exact hstep ▸ hqueue.emplace _
  | sendString msg msgid =>
      rw [SendQueue.step, Option.some.injEq] at hstep
      exact hstep ▸ hqueue.emplace _
  | complete index error =>
      simp only [SendQueue.step, Option.ite_none_right_eq_some, Option.some.injEq] at hstep
      exact hstep.2 ▸ hqueue.complete error hstep.1

/-- Behind an error nothing is written any more. -/
theorem Disciplined.written_eq_of_failed {event : Event} {next : SendQueue}
    (hqueue : Disciplined queue) (hfailed : queue.failed = true)
    (hstep : SendQueue.step queue event = some next) :
    next.failed = true ∧ next.written = queue.written := by
  obtain ⟨hidle, hne⟩ := hqueue.failed_idle hfailed
  have hemplace (call : SendCall) :
      (queue.emplace call).failed = true ∧ (queue.emplace call).written = queue.written := by
    rcases emplace_cases queue call with hsame | ⟨node, -, ⟨-, heq⟩ | ⟨hnil, -⟩⟩
    · rw [hsame]
      exact ⟨hfailed, rfl⟩
    · rw [heq]
      exact ⟨hfailed, rfl⟩
    · exact absurd hnil hne
  cases event with
  | send msg max_length msgid =>
      rw [SendQueue.step, Option.some.injEq] at hstep
      exact hstep ▸ hemplace _
  | sendString msg msgid =>
      rw [SendQueue.step, Option.some.injEq] at hstep
      exact hstep ▸ hemplace _
  | complete index error =>
      simp [SendQueue.step, hidle] at hstep

theorem disciplined_of_run {events : List Event} (hrun : send events = some queue) :
    Disciplined queue :=
  Machine.run_invariant disciplined_init (fun _ _ _ hqueue hstep => hqueue.step hstep) hrun

/-- **The send queue.** While no write has failed at most one is outstanding, there is one exactly
when the queue is not empty, and it is the front node's. An empty queue is never popped. What has
been written and what waits are the frames of the accepted calls in order, a call is accepted exactly
if the queue takes it, and after a failed write nothing more is written. -/
theorem send_discipline {events : List Event} (hrun : send events = some queue) :
    (queue.failed = false →
      queue.outstanding.length ≤ 1 ∧ (queue.outstanding ≠ [] ↔ queue.send_que_ ≠ []) ∧
        ∀ buffer ∈ queue.outstanding,
          queue.send_que_.head?.map (fun node => node.content) = some buffer) ∧
      queue.poppedEmpty = false ∧
      queue.written ++ (queue.send_que_.tail.map fun node => node.content)
        = queue.accepted.map SendCall.frame ∧
      (∀ call, (queue.emplace call).accepted = queue.accepted ++ [call] ↔ queue.Takes call) ∧
      (queue.failed = true → ∀ (more : List Event) (later : SendQueue),
        Machine.run step queue more = some later → later.written = queue.written) := by
  have hqueue := disciplined_of_run hrun
  refine ⟨fun hopen => ?_, hqueue.not_popped, hqueue.in_order, accepted_emplace_iff,
    fun hfailed more later hmore => ?_⟩
  · cases hqueue.open_writing hopen with
    | idle hnil houtstanding => simp [hnil, houtstanding]
    | front msgnode rest hfront houtstanding => simp [hfront, houtstanding]
  · have hinvariant : Disciplined later ∧ later.failed = true ∧ later.written = queue.written :=
      Machine.run_invariant (P := fun state => Disciplined state ∧ state.failed = true ∧
          state.written = queue.written) ⟨hqueue, hfailed, rfl⟩
        (fun state event next hstate hstep => by
          obtain ⟨hnextFailed, hwritten⟩ := hstate.1.written_eq_of_failed hstate.2.1 hstep
          exact ⟨hstate.1.step hstep, hnextFailed, hwritten.trans hstate.2.2⟩) hmore
    exact hinvariant.2.2

theorem send_discipline_two_messages :
    ∃ queue, send [.sendString [65] 7, .sendString [66] 7, .complete 0 false, .complete 0 true]
        = some queue ∧ queue.failed = true ∧ queue.poppedEmpty = false ∧
      queue.written = [[0, 7, 0, 1, 65], [0, 7, 0, 1, 66]] ∧
      ∀ (more : List Event) (later : SendQueue),
        Machine.run step queue more = some later → later.written = queue.written := by
  have hstate : (send [.sendString [65] 7, .sendString [66] 7, .complete 0 false,
      .complete 0 true]).map (fun queue => (queue.failed, queue.written))
        = some (true, [[0, 7, 0, 1, 65], [0, 7, 0, 1, 66]]) := by decide +kernel
  obtain ⟨queue, hrun, hfields⟩ := Option.map_eq_some_iff.mp hstate
  obtain ⟨hfailed, hwritten⟩ := Prod.mk.injEq .. ▸ hfields
  obtain ⟨-, hpopped, -, -, hlater⟩ := send_discipline hrun
  exact ⟨queue, hrun, hfailed, hpopped, hwritten, hlater hfailed⟩

end SendQueue

end QuickChat
