import QuickChat.Common.RedisPoolWait

/-!
# Who wakes a caller that waits for a Redis context

`returnConnection` notifies under the mutex: while the pool runs there is a woken caller for every
idle context as long as somebody is blocked. `Close` does not take the mutex, so its flag and its
notification can both fall between the test of a caller and its block, and nobody wakes that caller
any more.
-/

namespace QuickChat

namespace RedisConPool

namespace WaitState

open Machine

variable {κ : Type} {state next : WaitState κ} {event : WaitEvent κ} {events : List (WaitEvent κ)}

def toRun (state : WaitState κ) : Nat :=
  state.woken + if state.holder = some (.passed true) then 1 else 0

/-- Nobody is blocked once `Close` has notified, and nobody is blocked beside an idle context unless a
woken caller is still to run. -/
structure NoLostWakeup (state : WaitState κ) : Prop where
  closed : state.closing = .notified → state.blocked = 0
  idle : 0 < state.blocked → state.pool.connections_ ≠ [] → 0 < state.toRun

/-- The step is not a block behind the notification of `Close`, and not the last woken caller leaving
because of the flag while another is blocked beside an idle context. -/
def InTime (state : WaitState κ) : WaitEvent κ → Prop
  | .block => state.closing ≠ .notified
  | .leave =>
      state.pool.b_stop_ = true → 0 < state.blocked → state.pool.connections_ ≠ [] → 0 < state.woken
  | _ => True

instance (state : WaitState κ) (event : WaitEvent κ) : Decidable (InTime state event) := by
  cases event <;> unfold InTime <;> infer_instance

structure Guarded (state : WaitState κ) : Prop where
  waiting : state.holder = some .waiting → state.pool.connections_ = []
  running : state.pool.b_stop_ = false → 0 < state.blocked →
    state.pool.connections_.length ≤ state.toRun

theorem guarded_init (connections : List κ) : Guarded (init connections) :=
  ⟨fun hholder => absurd hholder (by simp [init]), fun _ hblocked => absurd hblocked (by simp [init])⟩

theorem predicate_eq_false {pool : ConPool κ} (hpredicate : predicate pool = false) :
    pool.b_stop_ = false ∧ pool.connections_ = [] := by
  unfold predicate at hpredicate
  split at hpredicate
  · exact absurd hpredicate (by simp)
  · rename_i hstop
    exact ⟨by simpa using hstop, by simpa using hpredicate⟩

theorem guarded_takeMutex {woken : Bool} (hpool : state.pool.b_stop_ = false → 0 < state.blocked →
      state.pool.connections_.length ≤ state.woken + if woken then 1 else 0) :
    Guarded (state.takeMutex woken) := by
  cases hpredicate : predicate state.pool with
  | false =>
      obtain ⟨-, hempty⟩ := predicate_eq_false hpredicate
      constructor
      · intro _
        exact hempty
      · intro _ _
        simp [takeMutex, hempty]
  | true =>
      constructor
      · intro hwaiting
        exact absurd hwaiting (by simp [takeMutex, hpredicate])
      · intro hstop hblocked
        have hlength := hpool hstop hblocked
        cases woken with
        | false => simpa [takeMutex, toRun, hpredicate] using hlength
        | true => simpa [takeMutex, toRun, hpredicate] using hlength

theorem guarded_notifyOne (hholder : state.holder = some .waiting → state.pool.connections_ = [])
    (hpool : state.pool.b_stop_ = false → 0 < state.blocked →
      state.pool.connections_.length ≤ state.toRun + 1) : Guarded state.notifyOne := by
  unfold notifyOne
  split
  · rename_i hblocked
    refine ⟨hholder, fun hstop _ => ?_⟩
    have hlength := hpool hstop hblocked
    simp only [toRun] at hlength ⊢
    omega
  · rename_i hblocked
    exact ⟨hholder, fun _ hpositive => absurd hpositive hblocked⟩

/-- What a step asks of the state, and what it makes of it. A caller behind the wait returns null if the
pool is stopped, and else takes the context at the front. -/
inductive Moves (state : WaitState κ) : WaitEvent κ → WaitState κ → Prop where
  | call : Moves state .call { state with arriving := state.arriving + 1 }
  | arrive (hholder : state.holder = none) :
      Moves state (.test false) (takeMutex { state with arriving := state.arriving - 1 } false)
  | awake (hholder : state.holder = none) (hwoken : 0 < state.woken) :
      Moves state (.test true) (takeMutex { state with woken := state.woken - 1 } true)
  | block (hholder : state.holder = some .waiting) :
      Moves state .block { state with holder := none, blocked := state.blocked + 1 }
  | leaveNull (hstop : state.pool.b_stop_ = true) :
      Moves state .leave { state with holder := none, results := state.results ++ [none] }
  | leaveWith {woken : Bool} {context : κ} {connections_ : List κ}
      (hholder : state.holder = some (.passed woken)) (hstop : state.pool.b_stop_ = false)
      (hconnections : state.pool.connections_ = context :: connections_) :
      Moves state .leave { state with
        pool := { state.pool with connections_ := connections_ }
        holder := none
        results := state.results ++ [some context] }
  | spurious : Moves state .spurious state.notifyOne
  | returnStopped {context : κ} (hstop : state.pool.b_stop_ = true) :
      Moves state (.returnConnection context) state
  | returnIdle {context : κ} (hholder : state.holder = none) (hstop : state.pool.b_stop_ = false) :
      Moves state (.returnConnection context) (notifyOne { state with
        pool := { state.pool with connections_ := state.pool.connections_ ++ [context] } })
  | stop (hclosing : state.closing = .none) :
      Moves state .stop
        { state with pool := { state.pool with b_stop_ := true }, closing := .stopped }
  | notifyAll (hclosing : state.closing = .stopped) :
      Moves state .notifyAll { state with
        blocked := 0
        woken := state.woken + state.blocked
        closing := .notified }

theorem moves_of_leave (hstep : step state .leave = some next) : Moves state .leave next := by
  dsimp only [step] at hstep
  split at hstep
  · rename_i woken hholder
    split at hstep
    · rename_i hstop
      rw [← Option.some.inj hstep]
      exact .leaveNull hstop
    · rename_i hstop
      split at hstep
      · exact absurd hstep (by simp)
      · rename_i context connections_ hconnections
        rw [← Option.some.inj hstep]
        exact .leaveWith hholder (by simpa using hstop) hconnections
  · exact absurd hstep (by simp)

theorem moves_of_returnConnection {context : κ}
    (hstep : step state (.returnConnection context) = some next) :
    Moves state (.returnConnection context) next := by
  obtain ⟨hholder, hnext⟩ := Option.ite_none_right_eq_some.mp hstep
  obtain rfl := Option.some.inj hnext
  by_cases hstop : state.pool.b_stop_ = true
  · rw [if_pos hstop, ConPool.returnConnection, if_pos hstop]
    exact .returnStopped hstop
  · rw [if_neg hstop, ConPool.returnConnection, if_neg hstop]
    exact .returnIdle hholder (by simpa using hstop)

/-- **Inversion of a step.** -/
theorem moves_of_step (hstep : step state event = some next) : Moves state event next := by
  cases event with
  | call =>
      obtain rfl := Option.some.inj hstep
      exact .call
  | test woken =>
      cases woken with
      | false =>
          obtain ⟨⟨hholder, -⟩, hnext⟩ := Option.ite_none_right_eq_some.mp hstep
          obtain rfl := Option.some.inj hnext
          exact .arrive hholder
      | true =>
          obtain ⟨⟨hholder, hwoken⟩, hnext⟩ := Option.ite_none_right_eq_some.mp hstep
          obtain rfl := Option.some.inj hnext
          exact .awake hholder hwoken
  | block =>
      obtain ⟨hholder, hnext⟩ := Option.ite_none_right_eq_some.mp hstep
      obtain rfl := Option.some.inj hnext
      exact .block hholder
  | leave => exact moves_of_leave hstep
  | spurious =>
      obtain ⟨-, hnext⟩ := Option.ite_none_right_eq_some.mp hstep
      obtain rfl := Option.some.inj hnext
      exact .spurious
  | returnConnection context => exact moves_of_returnConnection hstep
  | stop =>
      obtain ⟨hclosing, hnext⟩ := Option.ite_none_right_eq_some.mp hstep
      obtain rfl := Option.some.inj hnext
      exact .stop hclosing
  | notifyAll =>
      obtain ⟨hclosing, hnext⟩ := Option.ite_none_right_eq_some.mp hstep
      obtain rfl := Option.some.inj hnext
      exact .notifyAll hclosing

/-- Under the mutex an idle context and a blocked caller do not come together unnoticed. -/
theorem Guarded.step (hstate : Guarded state) (hstep : step state event = some next) :
    Guarded next := by
  cases moves_of_step hstep with
  | call => exact ⟨hstate.waiting, hstate.running⟩
  | arrive hholder =>
      apply guarded_takeMutex
      intro hstop hblocked
      have hlength := hstate.running hstop hblocked
      simpa [toRun, hholder] using hlength
  | awake hholder hwoken =>
      apply guarded_takeMutex
      intro hstop hblocked
      have hlength := hstate.running hstop hblocked
      simp only [toRun, hholder] at hlength
      simp only [if_true]
      simp at hlength
      omega
  | block hholder =>
      refine ⟨fun hwaiting => absurd hwaiting (by simp), fun _ _ => ?_⟩
      rw [hstate.waiting hholder]
      exact Nat.zero_le _
  | leaveNull hstop =>
      exact ⟨fun hwaiting => absurd hwaiting (by simp), fun hrunning _ =>
        absurd (hstop.symm.trans hrunning) (by simp)⟩
  | leaveWith hholder hstop hconnections =>
      refine ⟨fun hwaiting => absurd hwaiting (by simp), fun _ hblocked => ?_⟩
      have hlength := hstate.running hstop hblocked
      rw [hconnections, List.length_cons, toRun] at hlength
      simp only [toRun]
      split at hlength
      · simp
        omega
      · simp
        omega
  | spurious =>
      apply guarded_notifyOne hstate.waiting
      intro hstop hblocked
      exact (hstate.running hstop hblocked).trans (Nat.le_succ _)
  | returnStopped hstop => exact hstate
  | returnIdle hholder hstop =>
      refine guarded_notifyOne (fun hwaiting => ?_) fun _ hblocked => ?_
      · rw [hholder] at hwaiting
        exact absurd hwaiting (by simp)
      · have hlength := hstate.running hstop hblocked
        simpa [toRun] using hlength
  | stop => exact ⟨hstate.waiting, fun hstop _ => absurd hstop (by simp)⟩
  | notifyAll => exact ⟨hstate.waiting, fun _ hblocked => absurd hblocked (by simp)⟩

/-! ### Lost wake-ups -/

/-- While the pool runs there is a woken caller for every idle context. -/
theorem Guarded.noLostWakeup_iff (hstate : Guarded state) (hstop : state.pool.b_stop_ = false) :
    NoLostWakeup state ↔ (state.closing = .notified → state.blocked = 0) := by
  refine ⟨NoLostWakeup.closed, fun hclosed => ⟨hclosed, fun hblocked hidle => ?_⟩⟩
  have hlength := hstate.running hstop hblocked
  have hpositive := List.length_pos_iff.mpr hidle
  omega

theorem noLostWakeup_takeMutex {woken : Bool}
    (hclosed : state.closing = .notified → state.blocked = 0)
    (hidle : 0 < state.blocked → state.pool.connections_ ≠ [] →
      0 < state.woken + if woken then 1 else 0) : NoLostWakeup (state.takeMutex woken) := by
  refine ⟨hclosed, fun hblocked hconnections => ?_⟩
  cases hpredicate : predicate state.pool with
  | false => exact absurd (predicate_eq_false hpredicate).2 hconnections
  | true =>
      have hpositive := hidle hblocked hconnections
      cases woken with
      | false => simpa [takeMutex, toRun, hpredicate] using hpositive
      | true => simp [takeMutex, toRun, hpredicate]

theorem noLostWakeup_notifyOne (hclosed : state.closing = .notified → state.blocked = 0) :
    NoLostWakeup state.notifyOne := by
  unfold notifyOne
  split
  · rename_i hblocked
    refine ⟨fun hnotified => ?_, fun _ _ => ?_⟩
    · rw [hclosed hnotified] at hblocked
      exact absurd hblocked (Nat.lt_irrefl 0)
    · simp only [toRun]
      omega
  · rename_i hblocked
    exact ⟨hclosed, fun hpositive => absurd hpositive hblocked⟩

/-- Only the steps of `Close`, which takes no mutex, can fall between the test and the sleep. -/
theorem noLostWakeup_step_iff (hguarded : Guarded state) (hstate : NoLostWakeup state)
    (hstep : step state event = some next) : NoLostWakeup next ↔ InTime state event := by
  cases moves_of_step hstep with
  | call => exact iff_of_true ⟨hstate.closed, hstate.idle⟩ trivial
  | arrive hholder =>
      refine iff_of_true ?_ trivial
      refine noLostWakeup_takeMutex (fun hnotified => hstate.closed hnotified) ?_
      intro hblocked hconnections
      simpa [toRun, hholder] using hstate.idle hblocked hconnections
  | awake =>
      refine iff_of_true ?_ trivial
      refine noLostWakeup_takeMutex (fun hnotified => hstate.closed hnotified) ?_
      intro _ _
      exact Nat.succ_pos _
  | block hholder =>
      constructor
      · intro hnext hnotified
        exact absurd (hnext.closed hnotified) (Nat.succ_ne_zero _)
      · intro htime
        exact ⟨fun hnotified => absurd hnotified htime, fun _ hconnections =>
          absurd (hguarded.waiting hholder) hconnections⟩
  | leaveNull hstop =>
      constructor
      · intro hnext _ hblocked hidle
        simpa [toRun] using hnext.idle hblocked hidle
      · intro htime
        refine ⟨hstate.closed, fun hblocked hidle => ?_⟩
        simpa [toRun] using htime hstop hblocked hidle
  | leaveWith hholder hstop hconnections =>
      refine iff_of_true ?_ fun hstopped => absurd (hstop.symm.trans hstopped) (by simp)
      exact ((hguarded.step hstep).noLostWakeup_iff hstop).mpr hstate.closed
  | spurious => exact iff_of_true (noLostWakeup_notifyOne hstate.closed) trivial
  | returnStopped => exact iff_of_true hstate trivial
  | returnIdle => exact iff_of_true (noLostWakeup_notifyOne hstate.closed) trivial
  | stop => exact iff_of_true ⟨fun hnotified => absurd hnotified (by simp), hstate.idle⟩ trivial
  | notifyAll =>
      exact iff_of_true ⟨fun _ => rfl, fun hblocked => absurd hblocked (Nat.lt_irrefl 0)⟩ trivial

/-- **Lost wake-ups of the pool.** Throughout a run, from any idle contexts, no wake-up is lost exactly
if each of its steps is in time. -/
theorem noLostWakeup_throughout {connections : List κ}
    (hrun : run step (init connections) events = some state) :
    Throughout step (init connections) events NoLostWakeup ↔
      EachStep step (init connections) events InTime :=
  throughout_iff_eachStep (guarded_init connections) (fun _ _ _ hstate hstep => hstate.step hstep)
    ⟨fun hnotified => absurd hnotified (by simp [init]), fun hblocked =>
      absurd hblocked (by simp [init])⟩
    (fun _ _ _ hguarded hstate hstep => noLostWakeup_step_iff hguarded hstate hstep) hrun

/-- Once `Close` has notified, whoever is blocked stays blocked: no step but a spurious wake-up ends a
wait. -/
theorem blocked_of_notified (hstop : state.pool.b_stop_ = true) (hclosing : state.closing = .notified)
    (hspurious : ¬ event matches .spurious) (hstep : step state event = some next) :
    state.blocked ≤ next.blocked ∧ next.pool.b_stop_ = true ∧ next.closing = .notified := by
  cases moves_of_step hstep with
  | call => exact ⟨le_rfl, hstop, hclosing⟩
  | arrive => exact ⟨le_rfl, hstop, hclosing⟩
  | awake => exact ⟨le_rfl, hstop, hclosing⟩
  | block => exact ⟨Nat.le_succ _, hstop, hclosing⟩
  | leaveNull => exact ⟨le_rfl, hstop, hclosing⟩
  | leaveWith _ hrunning => exact absurd (hstop.symm.trans hrunning) (by simp)
  | spurious => exact absurd rfl hspurious
  | returnStopped => exact ⟨le_rfl, hstop, hclosing⟩
  | returnIdle _ hrunning => exact absurd (hstop.symm.trans hrunning) (by simp)
  | stop hnone => exact absurd (hnone.symm.trans hclosing) (by simp)
  | notifyAll hstopped => exact absurd (hstopped.symm.trans hclosing) (by simp)

theorem noLostWakeup_close :
    ∃ state, run step (init ([] : List Nat)) [.call, .test false, .block, .stop, .notifyAll, .test true,
        .leave] = some state ∧
      Throughout step (init ([] : List Nat)) [.call, .test false, .block, .stop, .notifyAll, .test true,
        .leave] NoLostWakeup := by
  refine ⟨_, rfl, (noLostWakeup_throughout rfl).mpr ?_⟩
  decide

/-- The flag is set and the notification made between the test and the block of a caller. -/
theorem wakeup_lost_at_close :
    ∃ state, run step (init ([] : List Nat)) [.call, .test false, .stop, .notifyAll, .block]
        = some state ∧
      state.closing = .notified ∧ state.blocked = 1 ∧
      ¬ Throughout step (init ([] : List Nat)) [.call, .test false, .stop, .notifyAll, .block]
        NoLostWakeup := by
  refine ⟨_, rfl, rfl, rfl, fun hall => ?_⟩
  exact absurd ((hall _ List.prefix_rfl _ rfl).closed rfl) (by decide)

end WaitState

end RedisConPool

end QuickChat
