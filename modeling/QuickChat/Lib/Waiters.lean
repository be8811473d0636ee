import Mathlib.Data.List.Nodup
import Mathlib.Data.List.Sort

/-!
# Callers that wait

A resource that several callers attempt to use. An attempt gives a result and the resource that it
leaves, or nothing, and then its caller waits. Each step, a new call or an operation that does not
wait, is followed by an attempt of every caller that waits, in any order: the order of their ranks.

Each call is either answered, once, or waiting. A system is a system over another resource when the
two resources answer every attempt alike.
-/

namespace Waiters

variable {σ τ ω ρ : Type*}

/-- The calls are numbered; a result is kept with the number of its call. -/
structure System (σ ρ : Type*) where
  resource : σ
  waiting : List Nat
  calls : Nat
  results : List (Nat × ρ)
  deriving DecidableEq

inductive Event (ω : Type*) where
  | call (rank : Nat → Nat)
  | perform (op : ω) (rank : Nat → Nat)

def start (resource : σ) : System σ ρ := ⟨resource, [], 0, []⟩

/-- What the call has given so far: `none` while it blocks. -/
def System.outcome (state : System σ ρ) (call : Nat) : Option ρ := state.results.lookup call

def test (attempt : σ → Option (ρ × σ)) (state : System σ ρ) (caller : Nat) : System σ ρ :=
  match attempt state.resource with
  | none => { state with waiting := state.waiting ++ [caller] }
  | some (result, resource) =>
      { state with resource, results := state.results ++ [(caller, result)] }

def retest (attempt : σ → Option (ρ × σ)) (rank : Nat → Nat) (state : System σ ρ) : System σ ρ :=
  (state.waiting.insertionSort fun i j => rank i ≤ rank j).foldl (test attempt)
    { state with waiting := [] }

def enter (perform : σ → ω → σ) (state : System σ ρ) : Event ω → System σ ρ
  | .call _ => { state with waiting := state.waiting ++ [state.calls], calls := state.calls + 1 }
  | .perform op _ => { state with resource := perform state.resource op }

def Event.rank : Event ω → Nat → Nat
  | .call rank => rank
  | .perform _ rank => rank

def advance (attempt : σ → Option (ρ × σ)) (perform : σ → ω → σ) (state : System σ ρ)
    (event : Event ω) : System σ ρ :=
  retest attempt event.rank (enter perform state event)

def run (attempt : σ → Option (ρ × σ)) (perform : σ → ω → σ) (state : System σ ρ)
    (events : List (Event ω)) : System σ ρ :=
  events.foldl (advance attempt perform) state

variable {attempt : σ → Option (ρ × σ)} {perform : σ → ω → σ} {attempt' : τ → Option (ρ × τ)}
  {perform' : τ → ω → τ} {state : System σ ρ} {rank : Nat → Nat} {caller : Nat}
  {callers : List Nat}

theorem test_of_none (hattempt : attempt state.resource = none) :
    test attempt state caller = { state with waiting := state.waiting ++ [caller] } := by
  rw [test, hattempt]

theorem test_of_some {result : ρ} {resource : σ}
    (hattempt : attempt state.resource = some (result, resource)) :
    test attempt state caller =
      { state with resource, results := state.results ++ [(caller, result)] } := by
  rw [test, hattempt]

theorem foldl_test_invariant {P : List Nat → System σ ρ → Prop}
    (htest : ∀ state caller callers,
      P (caller :: callers) state → P callers (test attempt state caller))
    (hstate : P callers state) : P [] (callers.foldl (test attempt) state) := by
  induction callers generalizing state with
  | nil => exact hstate
  | cons caller callers ih => exact ih (htest state caller callers hstate)

/-! ### Each call is answered or waiting -/

/-- The calls, each once: those answered, those that wait, and those still to test. -/
def Accounted (callers : List Nat) (state : System σ ρ) : Prop :=
  (state.results.map Prod.fst ++ (state.waiting ++ callers)).Perm (List.range state.calls)

theorem accounted_start (resource : σ) : Accounted [] (start resource : System σ ρ) :=
  List.Perm.refl _

theorem Accounted.test (hstate : Accounted (caller :: callers) state) :
    Accounted callers (test attempt state caller) := by
  unfold Accounted at hstate ⊢
  cases hattempt : attempt state.resource with
  | none =>
      rw [test_of_none hattempt, List.append_assoc]
      exact hstate
  | some answer =>
      rw [test_of_some hattempt, List.map_append, List.append_assoc]
      refine List.Perm.trans ?_ hstate
      change (_ ++ caller :: (state.waiting ++ callers)).Perm _
      exact List.Perm.append_left _ List.perm_middle.symm

theorem Accounted.retest (hstate : Accounted [] state) : Accounted [] (retest attempt rank state) := by
  refine foldl_test_invariant (fun _ _ _ hkept => hkept.test) (P := Accounted) ?_
  unfold Accounted at hstate ⊢
  rw [List.append_nil] at hstate
  exact (List.Perm.append_left _ (List.perm_insertionSort _ _)).trans hstate

theorem Accounted.enter (hstate : Accounted [] state) (event : Event ω) :
    Accounted [] (enter perform state event) := by
  cases event with
  | perform op rank => exact hstate
  | call rank =>
      unfold Accounted at hstate ⊢
      rw [List.append_nil] at hstate ⊢
      change (_ ++ (_ ++ [state.calls])).Perm (List.range (state.calls + 1))
      rw [← List.append_assoc, List.range_succ]
      exact hstate.append_right _

theorem Accounted.advance (hstate : Accounted [] state) (event : Event ω) :
    Accounted [] (advance attempt perform state event) := (hstate.enter event).retest

theorem Accounted.run (hstate : Accounted [] state) (events : List (Event ω)) :
    Accounted [] (run attempt perform state events) := by
  induction events generalizing state with
  | nil => exact hstate
  | cons event events ih => exact ih (hstate.advance event)

/-- A call has no outcome exactly while it waits. -/
theorem outcome_eq_none_iff (hstate : Accounted [] state) (hcaller : caller < state.calls) :
    state.outcome caller = none ↔ caller ∈ state.waiting := by
  have hmem := hstate.mem_iff.mpr (List.mem_range.mpr hcaller)
  have hnodup := hstate.nodup_iff.mpr List.nodup_range
  rw [List.append_nil] at hmem hnodup
  rw [System.outcome, List.lookup_eq_none_iff]
  constructor
  · intro hresults
    refine (List.mem_append.mp hmem).resolve_left fun hkey => ?_
    obtain ⟨result, hresult, rfl⟩ := List.mem_map.mp hkey
    exact absurd (hresults result hresult) (by simp)
  · intro hwaiting result hresult
    have hne := (List.nodup_append.mp hnodup).2.2 _ (List.mem_map_of_mem hresult) _ hwaiting
    simpa using hne.symm

/-! ### What is answered stays answered -/

theorem advance_invariant {P : System σ ρ → Prop} {event : Event ω}
    (htest : ∀ state caller, P state → P (test attempt state caller))
    (henter : P { enter perform state event with waiting := [] }) :
    P (advance attempt perform state event) :=
  foldl_test_invariant (P := fun _ => P) (fun state caller _ => htest state caller) henter

theorem prefix_results_test : state.results <+: (test attempt state caller).results := by
  cases hattempt : attempt state.resource with
  | none => exact ⟨[], by rw [test_of_none hattempt, List.append_nil]⟩
  | some answer =>
      rw [test_of_some hattempt]
      exact List.prefix_append _ _

theorem prefix_results_advance (event : Event ω) :
    state.results <+: (advance attempt perform state event).results := by
  refine advance_invariant (P := fun next => state.results <+: next.results)
    (fun _ _ hprefix => hprefix.trans prefix_results_test) ?_
  cases event with
  | call rank => exact List.prefix_rfl
  | perform op rank => exact List.prefix_rfl

theorem prefix_results_run (events : List (Event ω)) :
    state.results <+: (run attempt perform state events).results := by
  induction events generalizing state with
  | nil => exact List.prefix_rfl
  | cons event events ih => exact (prefix_results_advance event).trans ih

theorem outcome_run_ne_none (houtcome : state.outcome caller ≠ none) (events : List (Event ω)) :
    (run attempt perform state events).outcome caller ≠ none := by
  have hprefix : state.results <+: (run attempt perform state events).results :=
    prefix_results_run events
  obtain ⟨later, hlater⟩ := hprefix
  unfold System.outcome at houtcome ⊢
  rw [← hlater, List.lookup_append]
  intro hnone
  exact houtcome (Option.or_eq_none_iff.mp hnone).1

/-- When no attempt succeeds any more, whatever is performed, nothing is answered any more. -/
theorem results_advance_of_stuck {S : σ → Prop}
    (hstuck : ∀ resource, S resource → attempt resource = none) {event : Event ω}
    (hstate : S (enter perform state event).resource) :
    S (advance attempt perform state event).resource ∧
      (advance attempt perform state event).results = (enter perform state event).results := by
  refine advance_invariant
    (P := fun next => S next.resource ∧ next.results = (enter perform state event).results) ?_
    ⟨hstate, rfl⟩
  rintro next caller ⟨hnext, hresults⟩
  rw [test_of_none (hstuck _ hnext)]
  exact ⟨hnext, hresults⟩

/-- A resource that answers nobody, and is never made to, has no further results. -/
theorem results_run_of_stuck {S : σ → Prop} (hstuck : ∀ resource, S resource → attempt resource = none)
    (hperform : ∀ resource op, S resource → S (perform resource op)) (hstate : S state.resource)
    (events : List (Event ω)) : (run attempt perform state events).results = state.results := by
  induction events generalizing state with
  | nil => rfl
  | cons event events ih =>
      have henter : S (enter perform state event).resource ∧
          (enter perform state event).results = state.results := by
        cases event with
        | call rank => exact ⟨hstate, rfl⟩
        | perform op rank => exact ⟨hperform _ op hstate, rfl⟩
      obtain ⟨hnext, hresults⟩ := results_advance_of_stuck hstuck henter.1
      exact (ih hnext).trans (hresults.trans henter.2)

theorem calls_advance (event : Event ω) :
    (advance attempt perform state event).calls = (enter perform state event).calls := by
  refine advance_invariant
    (P := fun next => next.calls = (enter perform state event).calls) ?_ rfl
  intro next caller hcalls
  rw [← hcalls, test]
  split <;> rfl

theorem waiting_advance_of_nil {event : Event ω}
    (hwaiting : (enter perform state event).waiting = []) :
    (advance attempt perform state event).waiting = [] := by
  rw [advance, retest, hwaiting]
  rfl

theorem waiting_advance_of_open {S : σ → Prop}
    (hopen : ∀ resource, S resource → ∃ result, attempt resource = some (result, resource))
    {event : Event ω} (hstate : S (enter perform state event).resource) :
    (advance attempt perform state event).waiting = [] := by
  refine (advance_invariant
    (P := fun next => S next.resource ∧ next.waiting = []) ?_ ⟨hstate, rfl⟩).2
  rintro next caller ⟨hnext, hwaiting⟩
  obtain ⟨result, hresult⟩ := hopen _ hnext
  rw [test_of_some hresult]
  exact ⟨hnext, hwaiting⟩

/-! ### Two resources that answer alike -/

def System.map (view : σ → τ) (state : System σ ρ) : System τ ρ :=
  { state with resource := view state.resource }

@[simp]
theorem outcome_map (view : σ → τ) (call : Nat) :
    (state.map view).outcome call = state.outcome call := rfl

theorem enter_map {view : σ → τ}
    (hperform : ∀ resource op, view (perform resource op) = perform' (view resource) op)
    (event : Event ω) :
    (enter perform state event).map view = enter perform' (state.map view) event := by
  cases event with
  | call rank => rfl
  | perform op rank => simp [enter, System.map, hperform]

/-- One step of a system is one step of its view, when the attempts agree on the resources that the
callers come to test, or when nobody tests. -/
theorem advance_map {view : σ → τ} {S : σ → Prop}
    (hattempt : ∀ resource, S resource →
      attempt' (view resource) = (attempt resource).map (Prod.map id view))
    (hkept : ∀ resource result next, S resource → attempt resource = some (result, next) → S next)
    (hperform : ∀ resource op, view (perform resource op) = perform' (view resource) op)
    {event : Event ω} (hstate : S (enter perform state event).resource ∨
      (enter perform state event).waiting = []) :
    (advance attempt perform state event).map view =
      advance attempt' perform' (state.map view) event := by
  unfold advance
  rw [← enter_map hperform]
  generalize enter perform state event = entered at hstate
  unfold retest
  change _ = (entered.waiting.insertionSort _).foldl (test attempt')
    (System.map view { entered with waiting := [] })
  rcases hstate with hresource | hwaiting
  · have hstart : S ({ entered with waiting := [] } : System σ ρ).resource := hresource
    generalize ({ entered with waiting := [] } : System σ ρ) = next at hstart
    induction entered.waiting.insertionSort (fun i j => event.rank i ≤ event.rank j)
      generalizing next with
    | nil => rfl
    | cons caller callers ih =>
        rw [List.foldl_cons, List.foldl_cons]
        have hview : attempt' (next.map view).resource = _ := hattempt next.resource hstart
        cases hanswer : attempt next.resource with
        | none =>
            rw [hanswer, Option.map_none] at hview
            rw [test_of_none hanswer, test_of_none hview]
            exact ih _ hstart
        | some answer =>
            rw [hanswer, Option.map_some] at hview
            rw [test_of_some hanswer, test_of_some hview]
            exact ih _ (hkept _ _ _ hstart hanswer)
  · rw [hwaiting]
    rfl

/-- Two resources that answer alike have the same callers waiting, and give them the same. -/
theorem run_map {view : σ → τ}
    (hattempt : ∀ resource, attempt' (view resource) = (attempt resource).map (Prod.map id view))
    (hperform : ∀ resource op, view (perform resource op) = perform' (view resource) op)
    (events : List (Event ω)) :
    (run attempt perform state events).map view = run attempt' perform' (state.map view) events := by
  induction events generalizing state with
  | nil => rfl
  | cons event events ih =>
      change (run attempt perform (advance attempt perform state event) events).map view = _
      rw [ih, advance_map (S := fun _ => True) (fun resource _ => hattempt resource)
        (fun _ _ _ _ _ => trivial) hperform (.inl trivial)]
      rfl

end Waiters
