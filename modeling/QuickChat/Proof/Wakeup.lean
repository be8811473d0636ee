import QuickChat.Proof.Dispatch

/-!
# Which notifications are lost

A post that finds the queue empty notifies after the worker has blocked, since the worker keeps the
mutex from its test until it blocks. The destructor does not take the mutex: its flag and its
notification can both fall between the test and the block, and then nobody wakes the worker.
-/

namespace QuickChat.Chat.LogicSystem

open Machine

variable {Session : Type} {fun_callbacks_ : Finset Int16} {state next : LogicSystem Session}
  {event : Event Session} {events : List (Event Session)}

/-- A blocked worker that has something to do has a notification coming, from a poster or from the
destructor; so the destructor does not wait for a worker that nobody wakes. -/
structure NoLostWakeup (state : LogicSystem Session) : Prop where
  wakes : state.worker = .blocked → state.msg_que_ ≠ [] ∨ state.b_stop_ →
    0 < state.notifying ∨ state.destructor = .stopped
  join : state.destructor = .notified → state.worker = .blocked → 0 < state.notifying

/-- The worker does not go to sleep after the notification of the destructor, unless that of a poster
is still to come. -/
def SleepsInTime (state : LogicSystem Session) (event : Event Session) : Prop :=
  event matches .deal → state.worker = .block → state.destructor = .notified → 0 < state.notifying

instance (state : LogicSystem Session) (event : Event Session) :
    Decidable (SleepsInTime state event) :=
  inferInstanceAs (Decidable (_ → _))

theorem noLostWakeup_of_ne (hworker : state.worker ≠ .blocked) : NoLostWakeup state :=
  ⟨fun h => absurd h hworker, fun _ h => absurd h hworker⟩

/-- For the invariant of the posters, only the destructor's notification is in question. -/
theorem Waking.noLostWakeup_iff (hwaking : Waking state) :
    NoLostWakeup state ↔
      (state.destructor = .notified → state.worker = .blocked → 0 < state.notifying) := by
  refine ⟨NoLostWakeup.join, fun hjoin => ⟨fun hblocked hready => ?_, hjoin⟩⟩
  rcases hready with hque | hstop
  · exact .inl (hwaking.coming hblocked hque)
  · cases hdestructor : state.destructor with
    | none => exact absurd hdestructor (hwaking.stop.mp hstop)
    | stopped => exact .inr rfl
    | notified => exact .inl (hjoin hdestructor hblocked)
    | joined =>
        rw [hwaking.joined hdestructor] at hblocked
        exact absurd hblocked (by simp)

/-- The destructor notifies once, so a worker that falls asleep behind it is woken by nobody. -/
theorem noLostWakeup_step_iff (hwaking : Waking state) (hstate : NoLostWakeup state)
    (hstep : step fun_callbacks_ state event = some next) :
    NoLostWakeup next ↔ SleepsInTime state event := by
  have hjoin := hstate.join
  rw [(hwaking.step hstep).noLostWakeup_iff]
  cases moves_of_step hstep with
  | post msg =>
      refine iff_of_true (fun hnotified hblocked => ?_) (by simp [SleepsInTime])
      simp only [PostMsgToQue]
      split
      · exact Nat.succ_pos _
      · exact hjoin hnotified hblocked
  | notify =>
      refine iff_of_true (fun _ hblocked => ?_) (by simp [SleepsInTime])
      exact absurd hblocked (Worker.notify_ne_blocked state.worker)
  | deal hdeals =>
      cases hdeals with
      | quiet worker hquiet =>
          cases hquiet with
          | blocked hworker => simp [SleepsInTime, hworker]
          | _ hworker => simp [SleepsInTime, hworker]
      | observe hworker hstop => simp [SleepsInTime, hworker]
      | call msg rest worker hque hmem hworker =>
          rcases hworker with ⟨hworker, rfl⟩ | ⟨hworker, rfl⟩ <;> simp [SleepsInTime, hworker]
      | skip msg rest worker hque hmem hworker =>
          rcases hworker with ⟨hworker, rfl⟩ | ⟨hworker, rfl⟩ <;> simp [SleepsInTime, hworker]
      | pop worker hworker =>
          rcases hworker with ⟨hworker, rfl⟩ | ⟨hworker, rfl⟩ <;> simp [SleepsInTime, hworker]
  | spurious => simp [SleepsInTime]
  | stop => simp [SleepsInTime]
  | stopNotify =>
      refine iff_of_true (fun _ hblocked => ?_) (by simp [SleepsInTime])
      exact absurd hblocked (Worker.notify_ne_blocked state.worker)
  | join => simp [SleepsInTime]

/-- **Lost wake-ups.** Throughout a run no wake-up is lost, exactly if the worker never goes to sleep
after the notification of the destructor with no notification of a poster on its way. -/
theorem noLostWakeup_throughout_iff
    (hrun : run (step fun_callbacks_) init events = some state) :
    Throughout (step fun_callbacks_) init events NoLostWakeup ↔
      EachStep (step fun_callbacks_) init events SleepsInTime :=
  throughout_iff_eachStep waking_init (fun _ _ _ hstate hstep => hstate.step hstep)
    (noLostWakeup_of_ne (by simp [init]))
    (fun _ _ _ hwaking hstate hstep => noLostWakeup_step_iff hwaking hstate hstep) hrun

theorem noLostWakeup_stop_while_blocked :
    ∃ state, run (step ∅) init ([.deal, .deal, .deal, .stop, .stopNotify, .deal, .deal, .deal, .deal,
        .join] : List (Event Unit)) = some state ∧
      Throughout (step ∅) init ([.deal, .deal, .deal, .stop, .stopNotify, .deal, .deal, .deal, .deal,
        .join] : List (Event Unit)) NoLostWakeup := by
  refine ⟨_, rfl, (noLostWakeup_throughout_iff rfl).mpr ?_⟩
  decide

/-- The destructor sets the flag and notifies between the test and the block of the worker, and waits
for it for ever. -/
theorem wakeup_lost :
    ∃ state, run (step ∅) init ([.deal, .deal, .stop, .stopNotify, .deal] : List (Event Unit))
        = some state ∧
      state.worker = .blocked ∧ state.b_stop_ = true ∧ state.notifying = 0 ∧
      state.destructor = .notified ∧
      ¬ Throughout (step ∅) init ([.deal, .deal, .stop, .stopNotify, .deal] : List (Event Unit))
        NoLostWakeup := by
  refine ⟨_, rfl, rfl, rfl, rfl, rfl, fun hall => ?_⟩
  exact absurd ((hall _ List.prefix_rfl _ rfl).join rfl rfl) (by decide)

end QuickChat.Chat.LogicSystem
