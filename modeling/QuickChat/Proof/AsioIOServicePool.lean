import Mathlib.Data.List.Range
import Mathlib.Logic.Function.Basic
import QuickChat.Common.AsioIOServicePool

/-!
# Shutting the pool down

While the pool is shut down, all that matters is how far the loops of `Stop` have got: the contexts
before some index are stopped, the works before some index are reset, the threads before some index
are joined. The threads come to their ends in an order of their own, which the state keeps apart.

The first call takes all three indices to the size of the pool, however the threads come to their ends.
It leaves the vectors as long as they are. So a further call finds the first work reset, and goes
through it, unless there is none.
-/

namespace QuickChat

open Machine

namespace AsioIOServicePool

/-! ### Giving the contexts out -/

def givenOut : Nat → AsioIOServicePool → Option (List Nat)
  | 0, _ => some []
  | calls + 1, pool => do
      let (service, next) ← pool.GetIOService
      let services ← givenOut calls next
      return service :: services

theorem succ_mod_eq {size : Nat} (hsize : 0 < size) (before : Nat) :
    (if before % size + 1 = size then 0 else before % size + 1) = (before + 1) % size := by
  have hlt : before % size < size := Nat.mod_lt before hsize
  rw [← Nat.mod_add_mod before size 1]
  by_cases hlast : before % size + 1 = size
  · rw [if_pos hlast, hlast, Nat.mod_self]
  · have hnext : before % size + 1 < size := by omega
    rw [if_neg hlast, Nat.mod_eq_of_lt hnext]

variable {pool : AsioIOServicePool} {size before : Nat}

theorem GetIOService_of_mod (hsize : 0 < size) (hlength : pool.ioServices_.length = size)
    (hturn : pool.nextIOService_ = before % size) :
    pool.GetIOService =
      some (before % size, { pool with nextIOService_ := (before + 1) % size }) := by
  unfold GetIOService
  rw [hturn, hlength, if_pos (Nat.mod_lt before hsize)]
  simp only [succ_mod_eq hsize]

theorem givenOut_of_mod (hsize : 0 < size) (hlength : pool.ioServices_.length = size)
    (hturn : pool.nextIOService_ = before % size) (calls : Nat) :
    givenOut calls pool = some ((List.range' before calls).map (· % size)) := by
  induction calls generalizing pool before with
  | zero => rfl
  | succ calls ih =>
      have hrest : givenOut calls { pool with nextIOService_ := (before + 1) % size } =
          some ((List.range' (before + 1) calls).map (· % size)) := ih hlength rfl
      simp only [givenOut, GetIOService_of_mod hsize hlength hturn, Option.bind_eq_bind,
        Option.bind_some, hrest]
      rfl

/-- The contexts are given in turn. -/
theorem givenOut_new (hsize : 0 < size) (calls : Nat) :
    givenOut calls (new size) = some ((List.range calls).map (· % size)) := by
  rw [List.range_eq_range']
  exact givenOut_of_mod hsize List.length_replicate (Nat.zero_mod size).symm calls

/-! ### How far the pool is shut down -/

section Threads

variable {size stopped reset joined : Nat} {ended : Nat → Bool} {pool : AsioIOServicePool} {i : Nat}

theorem map_range_set {α : Type*} (f : Nat → α) (size i : Nat) (a : α) :
    ((List.range size).map f).set i a = (List.range size).map (Function.update f i a) := by
  apply List.ext_getElem
  · simp
  · intro j hj hj'
    rw [List.getElem_set, List.getElem_map, List.getElem_map, List.getElem_range]
    by_cases hij : i = j
    · rw [if_pos hij, hij, Function.update_self]
    · rw [if_neg hij, Function.update_of_ne (Ne.symm hij)]

/-- The entry at the bound is the next that has had its turn. -/
theorem map_range_advance {α : Type*} (f : Bool → Nat → α) (size bound : Nat) :
    ((List.range size).map fun i => f (decide (i < bound)) i).set bound (f true bound) =
      (List.range size).map fun i => f (decide (i < bound + 1)) i := by
  rw [map_range_set]
  congr 1
  funext i
  by_cases hi : i = bound
  · rw [hi, Function.update_self, decide_eq_true (Nat.lt_succ_self bound)]
  · rw [Function.update_of_ne hi]
    congr 1
    exact decide_eq_decide.mpr (by omega)

/-- The pool with the contexts, the works and the threads before an index stopped, reset and joined. -/
def shutTo (size stopped reset joined : Nat) (ended : Nat → Bool) : AsioIOServicePool where
  ioServices_ := (List.range size).map fun i => ⟨decide (i < stopped)⟩
  works_ := (List.range size).map fun i => bif decide (i < reset) then none else some i
  threads_ := (List.range size).map fun i => ⟨i, !decide (i < joined), ended i⟩
  nextIOService_ := 0

theorem new_eq_shutTo (size : Nat) : new size = shutTo size 0 0 0 fun _ => false := by
  simp [new, shutTo]

theorem shutTo_works (hi : i < size) :
    (shutTo size stopped reset joined ended).works_[i]? =
      some (bif decide (i < reset) then none else some i) := by
  simp [shutTo, hi]

theorem shutTo_works_size : (shutTo size stopped reset joined ended).works_[size]? = none := by
  simp [shutTo]

theorem shutTo_threads (hi : i < size) :
    (shutTo size stopped reset joined ended).threads_[i]? =
      some ⟨i, !decide (i < joined), ended i⟩ := by
  simp [shutTo, hi]

theorem shutTo_threads_of_le (hi : size ≤ i) :
    (shutTo size stopped reset joined ended).threads_[i]? = none := by
  simp [shutTo, hi]

theorem stopService_shutTo :
    (shutTo size stopped reset joined ended).stopService stopped =
      shutTo size (stopped + 1) reset joined ended := by
  have hset := map_range_advance (fun before _ => IOService.mk before) size stopped
  exact congrArg (AsioIOServicePool.mk · _ _ _) hset

theorem resetWork_shutTo :
    (shutTo size stopped reset joined ended).resetWork reset =
      shutTo size stopped (reset + 1) joined ended := by
  have hset := map_range_advance (fun before i => bif before then none else some i) size reset
  exact congrArg (AsioIOServicePool.mk _ · _ _) hset

theorem joinThread_shutTo :
    (shutTo size stopped reset joined ended).setThread joined ⟨joined, false, ended joined⟩ =
      shutTo size stopped reset (joined + 1) ended := by
  have hset := map_range_advance (fun before i => IOThread.mk i (!before) (ended i)) size joined
  exact congrArg (AsioIOServicePool.mk _ _ · _) hset

theorem endThread_shutTo :
    (shutTo size stopped reset joined ended).setThread i ⟨i, !decide (i < joined), true⟩ =
      shutTo size stopped reset joined (Function.update ended i true) := by
  unfold setThread shutTo
  rw [map_range_set]
  congr 2
  funext j
  by_cases hj : j = i
  · rw [hj, Function.update_self, Function.update_self]
  · rw [Function.update_of_ne hj, Function.update_of_ne hj]

theorem runReturns_shutTo (hi : i < stopped) (hsize : i < size) :
    (shutTo size stopped reset joined ended).RunReturns i := by
  left
  simp [shutTo, hi, hsize]

def running (pool : AsioIOServicePool) : Nat :=
  pool.threads_.countP fun thread => !thread.ended

theorem running_shutTo :
    (shutTo size stopped reset joined ended).running =
      (List.range size).countP fun i => !ended i := by
  unfold running shutTo
  rw [List.countP_map]
  rfl

theorem running_update_lt (hi : i < size) (hended : ended i = false) :
    ((List.range size).countP fun j => !Function.update ended i true j) <
      (List.range size).countP fun j => !ended j := by
  have hmem : (ended i) ∈ (List.range size).map ended :=
    List.mem_map_of_mem (List.mem_range.mpr hi)
  have hpos : 0 < ((List.range size).map ended).countP (!·) :=
    List.countP_pos_iff.mpr ⟨ended i, hmem, by rw [hended]; rfl⟩
  have hset := map_range_set ended size i true
  calc ((List.range size).countP fun j => !Function.update ended i true j)
      = ((List.range size).map (Function.update ended i true)).countP (!·) := by
        rw [List.countP_map]
        rfl
    _ = (((List.range size).map ended).set i true).countP (!·) := by rw [hset]
    _ = ((List.range size).map ended).countP (!·) - 1 := by
        rw [List.countP_set (by simpa using hi)]
        simp [hended]
    _ < ((List.range size).map ended).countP (!·) := Nat.sub_lt hpos Nat.one_pos
    _ = (List.range size).countP fun j => !ended j := by
        rw [List.countP_map]
        rfl

end Threads

namespace Shutdown

variable {size stopped reset joined calls : Nat} {ended : Nat → Bool} {i : Nat}
  {caller : Option StopPoint}

def progress (size stopped reset joined : Nat) (ended : Nat → Bool) (calls : Nat)
    (caller : Option StopPoint) : Shutdown :=
  ⟨shutTo size stopped reset joined ended, calls, caller, none, List.range joined⟩

theorem start_eq_progress (size calls : Nat) :
    start size calls = progress size 0 0 0 (fun _ => false) calls none := by
  rw [start, new_eq_shutTo]
  rfl

/-! ### The steps of a call -/

theorem step_none :
    step (progress size stopped reset joined ended (calls + 1) none) .caller =
      some (progress size stopped reset joined ended calls (some (.stop 0))) := rfl

theorem step_stop (hi : i < size) :
    step (progress size i i joined ended calls (some (.stop i))) .caller =
      some (progress size (i + 1) i joined ended calls (some (.reset i))) := by
  have hwork : (shutTo size i i joined ended).works_[i]? = some (some i) := by
    rw [shutTo_works hi, decide_eq_false (Nat.lt_irrefl i)]
    rfl
  simp [step, stepCaller, progress, hwork, stopService_shutTo]

theorem step_stop_size :
    step (progress size stopped reset joined ended calls (some (.stop size))) .caller =
      some (progress size stopped reset joined ended calls (some (.join 0))) := by
  simp [step, stepCaller, progress, shutTo_works_size]

theorem step_reset :
    step (progress size stopped i joined ended calls (some (.reset i))) .caller =
      some (progress size stopped (i + 1) joined ended calls (some (.stop (i + 1)))) := by
  simp [step, stepCaller, progress, resetWork_shutTo]

theorem step_join (hi : i < size) :
    step (progress size stopped reset i ended calls (some (.join i))) .caller =
      if ended i = true then
        some (progress size stopped reset (i + 1) ended calls (some (.join (i + 1))))
      else none := by
  have hthread : (shutTo size stopped reset i ended).threads_[i]? = some ⟨i, true, ended i⟩ := by
    rw [shutTo_threads hi, decide_eq_false (Nat.lt_irrefl i)]
    rfl
  simp [step, stepCaller, progress, hthread, joinThread_shutTo, List.range_succ]

theorem step_join_size :
    step (progress size stopped reset joined ended calls (some (.join size))) .caller =
      some (progress size stopped reset joined ended calls none) := by
  simp [step, stepCaller, progress, shutTo_threads_of_le]

theorem step_stop_reset (hi : i < size) (hreset : i < reset) :
    step (progress size stopped reset joined ended calls (some (.stop i))) .caller =
      some { progress size stopped reset joined ended calls (some (.stop i)) with
        fault := some .nullWork } := by
  have hwork : (shutTo size stopped reset joined ended).works_[i]? = some none := by
    rw [shutTo_works hi, decide_eq_true hreset]
    rfl
  simp [step, stepCaller, progress, hwork]

theorem step_thread (hi : i < size) (hended : ended i = false) (hstopped : i < stopped) :
    step (progress size stopped reset joined ended calls caller) (.thread i) =
      some (progress size stopped reset joined (Function.update ended i true) calls caller) := by
  have hreturns : (shutTo size stopped reset joined ended).RunReturns i :=
    runReturns_shutTo hstopped hi
  simp [step, stepThread, progress, shutTo_threads hi, endThread_shutTo, hended, hreturns]

theorem step_thread_cases {next : Shutdown}
    (hstep : step (progress size stopped reset joined ended calls caller) (.thread i) = some next) :
    i < size ∧ ended i = false ∧
      next = progress size stopped reset joined (Function.update ended i true) calls caller := by
  by_cases hi : i < size
  · have hends : (ended i = false ∧ (shutTo size stopped reset joined ended).RunReturns i) ∧
        progress size stopped reset joined (Function.update ended i true) calls caller = next := by
      simpa [step, stepThread, progress, shutTo_threads hi, endThread_shutTo] using hstep
    exact ⟨hi, hends.1.1, hends.2.symm⟩
  · have hthread : (shutTo size stopped reset joined ended).threads_[i]? = none :=
      shutTo_threads_of_le (not_lt.mp hi)
    simp [step, stepThread, progress, hthread] at hstep

/-! ### The first call -/

/-- A call is about to be made or has been made, on a pool that no call has shut down; the given
number of calls is to follow it. -/
inductive Underway (size calls : Nat) : Shutdown → Prop where
  | idle (ended : Nat → Bool) :
      Underway size calls (progress size 0 0 0 ended (calls + 1) none)
  | stop (i : Nat) (ended : Nat → Bool) (hi : i ≤ size) :
      Underway size calls (progress size i i 0 ended calls (some (.stop i)))
  | reset (i : Nat) (ended : Nat → Bool) (hi : i < size) :
      Underway size calls (progress size (i + 1) i 0 ended calls (some (.reset i)))
  | join (i : Nat) (ended : Nat → Bool) (hi : i ≤ size) :
      Underway size calls (progress size size size i ended calls (some (.join i)))

def Returned (size calls : Nat) (state : Shutdown) : Prop :=
  ∃ ended, state = progress size size size size ended calls none

def actions (size : Nat) : Option StopPoint → Nat
  | none => 3 * size + 3
  | some (.stop i) => 3 * size + 2 - 2 * i
  | some (.reset i) => 3 * size + 1 - 2 * i
  | some (.join i) => size + 1 - i

def remaining (size : Nat) (state : Shutdown) : Nat :=
  actions size state.caller + state.pool.running

theorem remaining_progress :
    remaining size (progress size stopped reset joined ended calls caller) =
      actions size caller + (List.range size).countP fun i => !ended i := by
  rw [← running_shutTo]
  rfl

theorem remaining_lt_of_actions {stopped' reset' joined' calls' : Nat}
    {caller' : Option StopPoint} (hactions : actions size caller' < actions size caller) :
    remaining size (progress size stopped' reset' joined' ended calls' caller') <
      remaining size (progress size stopped reset joined ended calls caller) := by
  rw [remaining_progress, remaining_progress]
  exact Nat.add_lt_add_right hactions _

theorem remaining_lt_of_ended (hi : i < size) (hended : ended i = false) :
    remaining size
        (progress size stopped reset joined (Function.update ended i true) calls caller) <
      remaining size (progress size stopped reset joined ended calls caller) := by
  rw [remaining_progress, remaining_progress]
  exact Nat.add_lt_add_left (running_update_lt hi hended) _

/-- The call gets on with its loops, or comes to their end. -/
theorem Underway.step_caller {state next : Shutdown} (hstate : Underway size calls state)
    (hstep : step state .caller = some next) :
    Returned size calls next ∨
      Underway size calls next ∧ remaining size next < remaining size state := by
  cases hstate with
  | idle ended =>
      rw [step_none, Option.some.injEq] at hstep
      subst hstep
      refine .inr ⟨.stop 0 ended (Nat.zero_le size), remaining_lt_of_actions ?_⟩
      simp only [actions]
      omega
  | stop i ended hi =>
      rcases hi.lt_or_eq with hlt | rfl
      · rw [step_stop hlt, Option.some.injEq] at hstep
        subst hstep
        refine .inr ⟨.reset i ended hlt, remaining_lt_of_actions ?_⟩
        simp only [actions]
        omega
      · rw [step_stop_size, Option.some.injEq] at hstep
        subst hstep
        refine .inr ⟨.join 0 ended (Nat.zero_le i), remaining_lt_of_actions ?_⟩
        simp only [actions]
        omega
  | reset i ended hi =>
      rw [step_reset, Option.some.injEq] at hstep
      subst hstep
      refine .inr ⟨.stop (i + 1) ended hi, remaining_lt_of_actions ?_⟩
      simp only [actions]
      omega
  | join i ended hi =>
      rcases hi.lt_or_eq with hlt | rfl
      · rw [step_join hlt] at hstep
        split at hstep
        · rw [Option.some.injEq] at hstep
          subst hstep
          refine .inr ⟨.join (i + 1) ended hlt, remaining_lt_of_actions ?_⟩
          simp only [actions]
          omega
        · cases hstep
      · rw [step_join_size, Option.some.injEq] at hstep
        exact .inl ⟨ended, hstep.symm⟩

theorem Underway.step_thread {state next : Shutdown} (hstate : Underway size calls state)
    (hstep : step state (.thread i) = some next) :
    Underway size calls next ∧ remaining size next < remaining size state := by
  cases hstate with
  | idle ended =>
      obtain ⟨hi, hended, rfl⟩ := step_thread_cases hstep
      exact ⟨.idle _, remaining_lt_of_ended hi hended⟩
  | stop j ended hj =>
      obtain ⟨hi, hended, rfl⟩ := step_thread_cases hstep
      exact ⟨.stop j _ hj, remaining_lt_of_ended hi hended⟩
  | reset j ended hj =>
      obtain ⟨hi, hended, rfl⟩ := step_thread_cases hstep
      exact ⟨.reset j _ hj, remaining_lt_of_ended hi hended⟩
  | join j ended hj =>
      obtain ⟨hi, hended, rfl⟩ := step_thread_cases hstep
      exact ⟨.join j _ hj, remaining_lt_of_ended hi hended⟩

theorem Underway.step {state next : Shutdown} {event : ShutdownEvent}
    (hstate : Underway size calls state) (hstep : step state event = some next) :
    Returned size calls next ∨
      Underway size calls next ∧ remaining size next < remaining size state := by
  cases event with
  | caller => exact hstate.step_caller hstep
  | thread i => exact .inr (hstate.step_thread hstep)

/-- The caller is never stuck: before a `join` either the thread has ended or it can end. -/
theorem Underway.enabled {state : Shutdown} (hstate : Underway size calls state) :
    ∃ event next, Shutdown.step state event = some next := by
  cases hstate with
  | idle ended => exact ⟨.caller, _, step_none⟩
  | stop i ended hi =>
      rcases hi.lt_or_eq with hlt | rfl
      · exact ⟨.caller, _, step_stop hlt⟩
      · exact ⟨.caller, _, step_stop_size⟩
  | reset i ended hi => exact ⟨.caller, _, step_reset⟩
  | join i ended hi =>
      rcases hi.lt_or_eq with hlt | rfl
      · by_cases hended : ended i = true
        · exact ⟨.caller, _, (step_join hlt).trans (if_pos hended)⟩
        · exact ⟨.thread i, _, Shutdown.step_thread hlt (Bool.eq_false_iff.mpr hended) hlt⟩
      · exact ⟨.caller, _, step_join_size⟩

theorem inevitable_returned (size calls : Nat) :
    Inevitable step (Returned size calls) (start size (calls + 1)) := by
  refine inevitable_of_remaining (remaining size) (fun state => Underway.enabled)
    (fun state event next hstate => hstate.step) ?_
  rw [start_eq_progress]
  exact .idle _

theorem Returned.step_thread {state next : Shutdown} (hstate : Returned size calls state)
    (hstep : step state (.thread i) = some next) : Returned size calls next := by
  obtain ⟨ended, rfl⟩ := hstate
  obtain ⟨-, -, rfl⟩ := step_thread_cases hstep
  exact ⟨_, rfl⟩

theorem Returned.shutdown {state : Shutdown} (hstate : Returned size calls state) :
    (∀ service ∈ state.pool.ioServices_, service.stopped = true) ∧
      state.joined = List.range size := by
  obtain ⟨ended, rfl⟩ := hstate
  refine ⟨fun service hservice => ?_, rfl⟩
  obtain ⟨i, hi, rfl⟩ := List.mem_map.mp hservice
  exact decide_eq_true (List.mem_range.mp hi)

/-! ### All calls -/

theorem Returned.eq_start {state : Shutdown} (hstate : Returned 0 calls state) :
    state = start 0 calls := by
  obtain ⟨ended, rfl⟩ := hstate
  rfl

inductive Again (size calls : Nat) : Shutdown → Prop where
  | idle (ended : Nat → Bool) :
      Again size calls (progress size size size size ended (calls + 1) none)
  | stop (ended : Nat → Bool) :
      Again size calls (progress size size size size ended calls (some (.stop 0)))

/-- A further call finds its first work reset, at the latest when it reads through it. -/
theorem Again.step_caller {state next : Shutdown} (hstate : Again size calls state)
    (hsize : 0 < size) (hstep : step state .caller = some next) :
    next.fault = some .nullWork ∨
      Again size calls next ∧ remaining size next < remaining size state := by
  cases hstate with
  | idle ended =>
      rw [step_none, Option.some.injEq] at hstep
      subst hstep
      refine .inr ⟨.stop ended, remaining_lt_of_actions ?_⟩
      simp only [actions]
      omega
  | stop ended =>
      rw [step_stop_reset hsize hsize, Option.some.injEq] at hstep
      subst hstep
      exact .inl rfl

theorem Again.step_thread {state next : Shutdown} (hstate : Again size calls state)
    (hstep : step state (.thread i) = some next) :
    Again size calls next ∧ remaining size next < remaining size state := by
  cases hstate with
  | idle ended =>
      obtain ⟨hi, hended, rfl⟩ := step_thread_cases hstep
      exact ⟨.idle _, remaining_lt_of_ended hi hended⟩
  | stop ended =>
      obtain ⟨hi, hended, rfl⟩ := step_thread_cases hstep
      exact ⟨.stop _, remaining_lt_of_ended hi hended⟩

/-- Until then something can always happen. -/
theorem Again.enabled {state : Shutdown} (hstate : Again size calls state) (hsize : 0 < size) :
    ∃ event next, step state event = some next := by
  cases hstate with
  | idle ended => exact ⟨.caller, _, step_none⟩
  | stop ended => exact ⟨.caller, _, step_stop_reset hsize hsize⟩

/-- However the threads come to their ends, the second call goes through the work that the first has
reset. -/
theorem inevitable_nullWork (hsize : 0 < size) (calls : Nat) :
    Inevitable step (fun state => state.fault = some .nullWork) (start size (calls + 2)) := by
  apply (inevitable_returned size (calls + 1)).trans
  rintro state ⟨ended, rfl⟩
  refine inevitable_of_remaining (I := Again size calls) (remaining size)
    (fun state hstate => hstate.enabled hsize) ?_ (.idle ended)
  intro state event next hstate hstep
  cases event with
  | caller => exact hstate.step_caller hsize hstep
  | thread i => exact .inr (hstate.step_thread hstep)

/-- There is one call only, or nothing to shut down. -/
def Orderly (size : Nat) (state : Shutdown) : Prop :=
  ∃ calls, (size = 0 ∨ calls = 0) ∧ (Underway size calls state ∨ Returned size calls state)

theorem orderly_start (hcalls : size = 0 ∨ calls = 1) : Orderly size (start size calls) := by
  rcases hcalls with rfl | rfl
  · exact ⟨calls, .inl rfl, .inr ⟨_, rfl⟩⟩
  · rw [start_eq_progress]
    exact ⟨0, .inr rfl, .inl (.idle _)⟩

/-- A single call keeps the order of the loops, whatever the threads do. -/
theorem Orderly.step {state next : Shutdown} {event : ShutdownEvent}
    (hstate : Orderly size state) (hstep : step state event = some next) : Orderly size next := by
  obtain ⟨calls, hcalls, hunderway | hreturned⟩ := hstate
  · refine ⟨calls, hcalls, ?_⟩
    rcases hunderway.step hstep with hreturned | ⟨hunderway', -⟩
    · exact .inr hreturned
    · exact .inl hunderway'
  · cases event with
    | thread i => exact ⟨calls, hcalls, .inr (hreturned.step_thread hstep)⟩
    | caller =>
        cases calls with
        | zero =>
            obtain ⟨ended, rfl⟩ := hreturned
            cases hstep
        | succ calls =>
            obtain rfl : size = 0 := hcalls.resolve_right (Nat.succ_ne_zero calls)
            rw [hreturned.eq_start, start_eq_progress, step_none, Option.some.injEq] at hstep
            subst hstep
            exact ⟨calls, .inl rfl, .inl (.stop 0 _ le_rfl)⟩

theorem Orderly.fault_eq_none {state : Shutdown} (hstate : Orderly size state) :
    state.fault = none := by
  obtain ⟨calls, -, hunderway | ⟨ended, rfl⟩⟩ := hstate
  · cases hunderway <;> rfl
  · rfl

theorem Orderly.returned {state : Shutdown} (hstate : Orderly size state)
    (hfinished : state.Finished) : Returned size 0 state := by
  obtain ⟨calls, -, hunderway | ⟨ended, rfl⟩⟩ := hstate
  · cases hunderway with
    | idle ended => exact absurd hfinished.1 (Nat.succ_ne_zero calls)
    | stop i ended hi => cases hfinished.2
    | reset i ended hi => cases hfinished.2
    | join i ended hi => cases hfinished.2
  · obtain rfl : calls = 0 := hfinished.1
    exact ⟨ended, rfl⟩

theorem Returned.finished {state : Shutdown} (hstate : Returned size 0 state) :
    state.Finished := by
  obtain ⟨ended, rfl⟩ := hstate
  exact ⟨rfl, rfl⟩

theorem inevitable_finished_empty (calls : Nat) :
    Inevitable step Finished (start 0 calls) := by
  induction calls with
  | zero => exact .reached ⟨rfl, rfl⟩
  | succ calls ih =>
      apply (inevitable_returned 0 calls).trans
      intro state hstate
      rw [hstate.eq_start]
      exact ih

theorem inevitable_finished_once (size : Nat) : Inevitable step Finished (start size 1) := by
  apply (inevitable_returned size 0).trans
  intro state hstate
  exact .reached hstate.finished

/-- Every call returns, without a step that has no meaning, and then the contexts are stopped and each
thread has been joined once, however the threads come to their ends. -/
structure ShutsDown (size calls : Nat) : Prop where
  safe : ∀ events state, run step (start size calls) events = some state → state.fault = none
  returns : Inevitable step Finished (start size calls)
  down : ∀ events state, run step (start size calls) events = some state → state.Finished →
    (∀ service ∈ state.pool.ioServices_, service.stopped = true) ∧
      state.joined.Perm (List.range size)

theorem shutsDown_of_orderly (hcalls : size = 0 ∨ calls = 1) : ShutsDown size calls where
  safe events state hrun :=
    (run_invariant (orderly_start hcalls) (fun _ _ _ hstate => hstate.step) hrun).fault_eq_none
  returns := by
    rcases hcalls with rfl | rfl
    · exact inevitable_finished_empty calls
    · exact inevitable_finished_once size
  down events state hrun hfinished := by
    have horderly : Orderly size state :=
      run_invariant (orderly_start hcalls) (fun _ _ _ hstate => hstate.step) hrun
    obtain ⟨hstopped, hjoined⟩ := (horderly.returned hfinished).shutdown
    exact ⟨hstopped, .of_eq hjoined⟩

theorem not_shutsDown_zero (hsize : 0 < size) : ¬ ShutsDown size 0 := by
  intro hshuts
  have hstopped := (hshuts.down [] _ rfl ⟨rfl, rfl⟩).1
  have hmem : (⟨false⟩ : IOService) ∈ (new size).ioServices_ :=
    List.mem_replicate.mpr ⟨hsize.ne', rfl⟩
  cases hstopped _ hmem

theorem not_shutsDown_again (hsize : 0 < size) : ¬ ShutsDown size (calls + 2) := by
  intro hshuts
  obtain ⟨events, state, hrun, hfault⟩ := (inevitable_nullWork hsize calls).exists_run
  rw [hshuts.safe events state hrun] at hfault
  cases hfault

/-- **Shutting the pool down.** The pool is shut down by one call of `Stop` and by no other number of
calls, if it has a context. -/
theorem shutsDown_iff (size calls : Nat) : ShutsDown size calls ↔ size = 0 ∨ calls = 1 := by
  constructor
  · intro hshuts
    rcases Nat.eq_zero_or_pos size with hempty | hsize
    · exact .inl hempty
    · match calls with
      | 0 => exact absurd hshuts (not_shutsDown_zero hsize)
      | 1 => exact .inr rfl
      | calls + 2 => exact absurd hshuts (not_shutsDown_again hsize)
  · exact shutsDown_of_orderly

theorem not_shutsDown_twice : ¬ ShutsDown 2 2 := by
  intro hshuts
  have hrun : (run step (start 2 2) (List.replicate 6 .caller ++ [.thread 0, .thread 1] ++
      List.replicate 5 .caller)).map Shutdown.fault = some (some .nullWork) := by decide
  obtain ⟨state, hstate, hfault⟩ := Option.map_eq_some_iff.mp hrun
  rw [hshuts.safe _ state hstate] at hfault
  cases hfault

end Shutdown

end AsioIOServicePool

end QuickChat
