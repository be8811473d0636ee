import Mathlib.Data.List.Forall2
import Mathlib.Data.List.Induction

/-!
# Runs of a machine

A machine is a state and a partial step: an event either takes the state to the next one or cannot
happen there. A run is a list of events, each of which happens. What is proved of a run is proved of
one step: an invariant of the state, or a relation between the state and the events that led to it.

The steps of a run are its events with the states that they happen in; what one of them comes after is
about the steps before it. A property of every state on the way, and a condition on every step of it,
are two views of one run. What is inevitable comes about on every way that the machine can take. A
machine whose steps are matched by those of a second one has its runs matched by runs of the second,
event by event.
-/

namespace Machine

variable {σ ε : Type*}

/-- The state after the events, `none` as soon as one of them cannot happen. -/
def run (step : σ → ε → Option σ) : σ → List ε → Option σ
  | state, [] => some state
  | state, event :: events => (step state event).bind fun next => run step next events

variable {step : σ → ε → Option σ} {start finish : σ} {events : List ε}

@[simp]
theorem run_nil (state : σ) : run step state [] = some state := rfl

@[simp]
theorem run_cons (state : σ) (event : ε) (events : List ε) :
    run step state (event :: events) =
      (step state event).bind fun next => run step next events := rfl

theorem run_append (state : σ) (first second : List ε) :
    run step state (first ++ second) =
      (run step state first).bind fun next => run step next second := by
  induction first generalizing state with
  | nil => rfl
  | cons event rest ih =>
      cases hstep : step state event with
      | none => simp [hstep]
      | some next => simpa [hstep] using ih next

theorem run_concat_eq_some {event : ε} :
    run step start (events ++ [event]) = some finish ↔
      ∃ middle, run step start events = some middle ∧ step middle event = some finish := by
  rw [run_append, Option.bind_eq_some_iff]
  simp

/-- A relation between the events so far and the state, kept by every step, holds after every run. -/
theorem run_history {P : List ε → σ → Prop} (hstart : P [] start)
    (hstep : ∀ events state event next, P events state → step state event = some next →
      P (events ++ [event]) next)
    (hrun : run step start events = some finish) : P events finish := by
  induction events using List.reverseRecOn generalizing finish with
  | nil =>
      rw [run_nil, Option.some.injEq] at hrun
      exact hrun ▸ hstart
  | append_singleton events event ih =>
      obtain ⟨middle, hmiddle, hlast⟩ := run_concat_eq_some.mp hrun
      exact hstep events middle event finish (ih hmiddle) hlast

theorem run_invariant {P : σ → Prop} (hstart : P start)
    (hstep : ∀ state event next, P state → step state event = some next → P next)
    (hrun : run step start events = some finish) : P finish :=
  run_history (P := fun _ state => P state) hstart
    (fun _ state event next hstate => hstep state event next hstate) hrun

/-- The steps of the run: its events, each with the state that it happens in. -/
def steps (step : σ → ε → Option σ) : σ → List ε → List (σ × ε)
  | _, [] => []
  | state, event :: events =>
      (state, event) :: ((step state event).elim [] fun next => steps step next events)

/-- The last step of a run happens in the state that the run before it ends in. -/
theorem steps_concat {event : ε} (hrun : run step start events = some finish) :
    steps step start (events ++ [event]) = steps step start events ++ [(finish, event)] := by
  induction events generalizing start with
  | nil =>
      obtain rfl := Option.some.inj hrun
      simp only [List.nil_append, steps]
      cases step start event <;> rfl
  | cons first events ih =>
      obtain ⟨next, hnext, hrest⟩ := Option.bind_eq_some_iff.mp hrun
      rw [List.cons_append, steps, steps, hnext, Option.elim_some, Option.elim_some, ih hrest,
        List.cons_append]

/-- A relation between the steps so far and the state, kept by every step, holds after every run. -/
theorem run_steps {P : List (σ × ε) → σ → Prop} (hstart : P [] start)
    (hstep : ∀ past state event next, P past state → step state event = some next →
      P (past ++ [(state, event)]) next)
    (hrun : run step start events = some finish) : P (steps step start events) finish := by
  induction events using List.reverseRecOn generalizing finish with
  | nil =>
      obtain rfl := Option.some.inj hrun
      exact hstart
  | append_singleton events event ih =>
      obtain ⟨middle, hmiddle, hlast⟩ := run_concat_eq_some.mp hrun
      rw [steps_concat hmiddle]
      exact hstep _ middle event finish (ih hmiddle) hlast

/-! ### What comes before -/

theorem concat_eq_split {α : Type*} {list before after : List α} {last other : α} :
    list ++ [last] = before ++ other :: after ↔
      (list = before ∧ last = other ∧ after = []) ∨
        ∃ rest, after = rest ++ [last] ∧ list = before ++ other :: rest := by
  constructor
  · intro hsplit
    rcases List.eq_nil_or_concat after with rfl | ⟨rest, end', rfl⟩
    · obtain ⟨rfl, hlast⟩ := List.append_inj' hsplit rfl
      exact .inl ⟨rfl, List.singleton_inj.mp hlast, rfl⟩
    · rw [List.concat_eq_append, ← List.cons_append, ← List.append_assoc] at hsplit
      obtain ⟨rfl, hlast⟩ := List.append_inj' hsplit rfl
      obtain rfl := List.singleton_inj.mp hlast
      exact .inr ⟨rest, List.concat_eq_append, rfl⟩
  · rintro (⟨rfl, rfl, rfl⟩ | ⟨rest, rfl, rfl⟩)
    · rfl
    · rw [List.append_assoc, List.cons_append]

def Preceded {α : Type*} (R : List α → α → Prop) (list : List α) : Prop :=
  ∀ before element after, list = before ++ element :: after → R before element

section Preceded

variable {α : Type*} {R : List α → α → Prop} {list : List α} {last : α}

theorem preceded_nil : Preceded R [] := by
  intro before element after hsplit
  exact absurd hsplit.symm (by simp)

theorem preceded_concat : Preceded R (list ++ [last]) ↔ Preceded R list ∧ R list last := by
  constructor
  · intro hall
    refine ⟨fun before element after hsplit => ?_, hall list last [] rfl⟩
    exact hall before element (after ++ [last]) (concat_eq_split.mpr (.inr ⟨after, rfl, hsplit⟩))
  · rintro ⟨hlist, hlast⟩ before element after hsplit
    rcases concat_eq_split.mp hsplit with ⟨rfl, rfl, -⟩ | ⟨rest, -, hrest⟩
    · exact hlast
    · exact hlist before element rest hrest

end Preceded

def Since {α : Type*} (P Q : α → Prop) (list : List α) : Prop :=
  ∃ before element after, list = before ++ element :: after ∧ P element ∧ ∀ later ∈ after, Q later

section Since

variable {α : Type*} {P Q : α → Prop} {list : List α} {last : α}

theorem not_since_nil : ¬ Since P Q [] := by
  rintro ⟨before, element, after, hsplit, -⟩
  exact absurd hsplit.symm (by simp)

/-- The last element starts the stretch anew, or goes on with it. -/
theorem since_concat : Since P Q (list ++ [last]) ↔ P last ∨ Q last ∧ Since P Q list := by
  constructor
  · rintro ⟨before, element, after, hsplit, helement, hafter⟩
    rcases concat_eq_split.mp hsplit with ⟨-, rfl, -⟩ | ⟨rest, rfl, hrest⟩
    · exact .inl helement
    · refine .inr ⟨hafter last (by simp), before, element, rest, hrest, helement, ?_⟩
      exact fun later hlater => hafter later (List.mem_append_left _ hlater)
  · rintro (hlast | ⟨hlast, before, element, rest, hsplit, helement, hrest⟩)
    · exact ⟨list, last, [], rfl, hlast, List.forall_mem_nil _⟩
    · refine ⟨before, element, rest ++ [last], concat_eq_split.mpr (.inr ⟨rest, rfl, hsplit⟩),
        helement, ?_⟩
      intro later hlater
      rcases List.mem_append.mp hlater with hlater | hlater
      · exact hrest later hlater
      · exact List.mem_singleton.mp hlater ▸ hlast

end Since

/-- The last element that has something for the key, and what it is. -/
def LastOf {α κ ν : Type*} (f : α → Option (κ × ν)) (list : List α) (key : κ) (value : ν) : Prop :=
  Since (fun element => f element = some (key, value))
    (fun later => ∀ value', f later ≠ some (key, value')) list

section LastOf

variable {α κ ν : Type*} {f : α → Option (κ × ν)} {list : List α} {last : α} {key : κ} {value : ν}

theorem not_lastOf_nil : ¬ LastOf f [] key value := not_since_nil

theorem lastOf_concat :
    LastOf f (list ++ [last]) key value ↔
      f last = some (key, value) ∨
        (∀ value', f last ≠ some (key, value')) ∧ LastOf f list key value := since_concat

end LastOf

/-- Up to each of its steps, the run is a run. -/
theorem exists_run_of_steps {before after : List (σ × ε)} {state : σ} {event : ε}
    (hrun : run step start events = some finish)
    (hsplit : steps step start events = before ++ (state, event) :: after) :
    ∃ first next, run step start first = some state ∧ steps step start first = before ∧
      step state event = some next := by
  induction events using List.reverseRecOn generalizing finish after with
  | nil => exact absurd hsplit (by simp [steps])
  | append_singleton events last ih =>
      obtain ⟨middle, hmiddle, hlast⟩ := run_concat_eq_some.mp hrun
      rw [steps_concat hmiddle] at hsplit
      rcases concat_eq_split.mp hsplit with ⟨hbefore, hstep, -⟩ | ⟨rest, -, hrest⟩
      · obtain ⟨rfl, rfl⟩ := Prod.mk.inj hstep
        exact ⟨events, finish, hmiddle, hbefore, hlast⟩
      · exact ih hmiddle hrest

/-- The property holds in every state that the run passes through, the first and the last included. -/
def Throughout (step : σ → ε → Option σ) (start : σ) (events : List ε) (P : σ → Prop) : Prop :=
  ∀ first, first <+: events → ∀ state, run step start first = some state → P state

/-- The condition holds of every step of the run: of its event, in the state that it happens in. -/
def EachStep (step : σ → ε → Option σ) (start : σ) (events : List ε) (Q : σ → ε → Prop) : Prop :=
  ∀ first event, first ++ [event] <+: events → ∀ state, run step start first = some state →
    Q state event

variable {P : σ → Prop} {Q : σ → ε → Prop}

theorem throughout_nil : Throughout step start [] P ↔ P start := by
  constructor
  · intro hall
    exact hall [] List.prefix_rfl start rfl
  · intro hstart first hfirst state hrun
    rw [List.prefix_nil.mp hfirst, run_nil, Option.some.injEq] at hrun
    exact hrun ▸ hstart

/-- An invariant of a run is looked at once more with each further event. -/
theorem throughout_concat {event : ε} (hrun : run step start (events ++ [event]) = some finish) :
    Throughout step start (events ++ [event]) P ↔ Throughout step start events P ∧ P finish := by
  constructor
  · intro hall
    exact ⟨fun first hfirst => hall first (hfirst.trans (List.prefix_append _ _)),
      hall _ List.prefix_rfl finish hrun⟩
  · rintro ⟨hbefore, hlast⟩ first hfirst state hstate
    rcases List.prefix_concat_iff.mp hfirst with rfl | hfirst
    · rw [hrun, Option.some.injEq] at hstate
      exact hstate ▸ hlast
    · exact hbefore first hfirst state hstate

theorem eachStep_nil : EachStep step start [] Q := by
  intro first event hfirst
  exact absurd (List.prefix_nil.mp hfirst) (by simp)

theorem eachStep_concat {event : ε} {middle : σ} (hmiddle : run step start events = some middle) :
    EachStep step start (events ++ [event]) Q ↔
      EachStep step start events Q ∧ Q middle event := by
  constructor
  · intro hall
    exact ⟨fun first other hfirst => hall first other (hfirst.trans (List.prefix_append _ _)),
      hall events event List.prefix_rfl middle hmiddle⟩
  · rintro ⟨hbefore, hlast⟩ first other hfirst state hstate
    rcases List.prefix_concat_iff.mp hfirst with heq | hfirst
    · obtain ⟨rfl, hother⟩ := List.append_inj' heq rfl
      rw [hmiddle, Option.some.injEq] at hstate
      rw [List.singleton_inj.mp hother, ← hstate]
      exact hlast
    · exact hbefore first other hfirst state hstate

theorem eachStep_cons {event : ε} :
    EachStep step start (event :: events) Q ↔
      Q start event ∧ ∀ next ∈ step start event, EachStep step next events Q := by
  constructor
  · intro hall
    refine ⟨hall [] event (by simp) start rfl, fun next hnext first other hfirst state hrun => ?_⟩
    refine hall (event :: first) other ((List.cons_prefix_cons).mpr ⟨rfl, hfirst⟩) state ?_
    rw [run_cons, Option.mem_def.mp hnext]
    exact hrun
  · rintro ⟨hhead, htail⟩ first other hfirst state hrun
    cases first with
    | nil =>
        obtain ⟨rfl, -⟩ := List.cons_prefix_cons.mp hfirst
        rw [run_nil, Option.some.injEq] at hrun
        exact hrun ▸ hhead
    | cons event' first =>
        obtain ⟨rfl, hrest⟩ := List.cons_prefix_cons.mp hfirst
        obtain ⟨next, hnext, hnextRun⟩ := Option.bind_eq_some_iff.mp hrun
        exact htail next hnext first other hrest state hnextRun

instance decidableEachStep [∀ state event, Decidable (Q state event)] :
    (start : σ) → (events : List ε) → Decidable (EachStep step start events Q)
  | _, [] => isTrue eachStep_nil
  | _, _ :: events =>
      have : ∀ next, Decidable (EachStep step next events Q) := fun next =>
        decidableEachStep next events
      decidable_of_iff _ eachStep_cons.symm

/-- **A property and the steps that break it.** When, from a state with the property, a step leads to
one with the property exactly if it meets the condition, then a run has the property throughout
exactly if each of its steps meets the condition. -/
theorem throughout_iff_eachStep {I : σ → Prop} (hinv : I start)
    (hinvStep : ∀ state event next, I state → step state event = some next → I next)
    (hstart : P start)
    (hstep : ∀ state event next, I state → P state → step state event = some next →
      (P next ↔ Q state event))
    (hrun : run step start events = some finish) :
    Throughout step start events P ↔ EachStep step start events Q := by
  induction events using List.reverseRecOn generalizing finish with
  | nil => exact ⟨fun _ => eachStep_nil, fun _ => throughout_nil.mpr hstart⟩
  | append_singleton events event ih =>
      obtain ⟨middle, hmiddle, hlast⟩ := run_concat_eq_some.mp hrun
      rw [throughout_concat hrun, eachStep_concat hmiddle, ← ih hmiddle]
      refine and_congr_right fun hbefore => ?_
      exact hstep middle event finish (run_invariant hinv hinvStep hmiddle)
        (hbefore events List.prefix_rfl middle hmiddle) hlast

/-! ### On every way -/

/-- However the machine goes on, it gets to a state in `P`: it neither stops nor goes on for ever
before. -/
inductive Inevitable (step : σ → ε → Option σ) (P : σ → Prop) : σ → Prop where
  | reached {state : σ} (hstate : P state) : Inevitable step P state
  | ahead {state : σ} (henabled : ∃ event next, step state event = some next)
      (hnext : ∀ event next, step state event = some next → Inevitable step P next) :
      Inevitable step P state

theorem Inevitable.trans {P' : σ → Prop} (hfirst : Inevitable step P start)
    (hsecond : ∀ state, P state → Inevitable step P' state) : Inevitable step P' start := by
  induction hfirst with
  | reached hstate => exact hsecond _ hstate
  | ahead henabled _ ih => exact .ahead henabled ih

/-- What is inevitable can happen. -/
theorem Inevitable.exists_run (hstart : Inevitable step P start) :
    ∃ events finish, run step start events = some finish ∧ P finish := by
  induction hstart with
  | @reached state hstate => exact ⟨[], state, rfl, hstate⟩
  | ahead henabled _ ih =>
      obtain ⟨event, next, hstep⟩ := henabled
      obtain ⟨events, finish, hrun, hfinish⟩ := ih event next hstep
      refine ⟨event :: events, finish, ?_, hfinish⟩
      rw [run_cons, hstep]
      exact hrun

/-- Where a step is always possible, and each gets to `P` or makes less of what remains. -/
theorem inevitable_of_remaining {I : σ → Prop} (remaining : σ → ℕ)
    (henabled : ∀ state, I state → ∃ event next, step state event = some next)
    (hstep : ∀ state event next, I state → step state event = some next →
      P next ∨ I next ∧ remaining next < remaining state)
    (hstart : I start) : Inevitable step P start := by
  induction hbound : remaining start using Nat.strongRecOn generalizing start with
  | _ bound ih =>
      refine .ahead (henabled start hstart) fun event next hnext => ?_
      rcases hstep start event next hstart hnext with hreached | ⟨hkept, hless⟩
      · exact .reached hreached
      · exact ih _ (hbound ▸ hless) hkept rfl

/-- Where each step that does not get to `P` goes down in a well-founded order. -/
theorem inevitable_of_wellFounded {τ : Type*} {r : τ → τ → Prop} {I : σ → Prop}
    (hwf : WellFounded r) (rank : σ → τ)
    (henabled : ∀ state, I state → P state ∨ ∃ event next, step state event = some next)
    (hstep : ∀ state event next, I state → step state event = some next →
      I next ∧ r (rank next) (rank state))
    (hstart : I start) : Inevitable step P start := by
  induction hrank : rank start using hwf.induction generalizing start with
  | _ _ ih =>
      rcases henabled start hstart with hreached | hnext
      · exact .reached hreached
      · refine .ahead hnext fun event next hstepped => ?_
        obtain ⟨hkept, hless⟩ := hstep start event next hstart hstepped
        exact ih _ (hrank ▸ hless) hkept rfl

theorem Inevitable.and_invariant {I : σ → Prop} (hinevitable : Inevitable step P start)
    (hkept : ∀ state event next, I state → step state event = some next → I next)
    (hstart : I start) : Inevitable step (fun state => P state ∧ I state) start := by
  induction hinevitable with
  | reached hstate => exact .reached ⟨hstate, hstart⟩
  | ahead henabled _ ih =>
      exact .ahead henabled fun event next hstep => ih event next hstep (hkept _ _ _ hstart hstep)

theorem Inevitable.mono {P' : σ → Prop} (hinevitable : Inevitable step P start)
    (himp : ∀ state, P state → P' state) : Inevitable step P' start :=
  hinevitable.trans fun state hstate => .reached (himp state hstate)

def only (allowed : ε → Prop) [DecidablePred allowed] (step : σ → ε → Option σ) :
    σ → ε → Option σ :=
  fun state event => if allowed event then step state event else none

theorem only_eq_some {allowed : ε → Prop} [DecidablePred allowed] {state next : σ} {event : ε} :
    only allowed step state event = some next ↔ allowed event ∧ step state event = some next :=
  Option.ite_none_right_eq_some

/-- The machine in which an event happens only where it is allowed. -/
def guarded (allowed : σ → ε → Prop) [∀ state event, Decidable (allowed state event)]
    (step : σ → ε → Option σ) : σ → ε → Option σ :=
  fun state event => if allowed state event then step state event else none

theorem guarded_eq_some {allowed : σ → ε → Prop} [∀ state event, Decidable (allowed state event)]
    {state next : σ} {event : ε} :
    guarded allowed step state event = some next ↔
      allowed state event ∧ step state event = some next :=
  Option.ite_none_right_eq_some

/-! ### By another machine -/

/-- Where each step is matched by a step of the other machine, each run is matched by a run of it. -/
theorem run_simulates {τ δ : Type*} {step' : τ → δ → Option τ} {R : σ → τ → Prop}
    {M : ε → δ → Prop} {start' : τ}
    (hstep : ∀ state event next state', R state state' → step state event = some next →
      ∃ event' next', M event event' ∧ step' state' event' = some next' ∧ R next next')
    (hstart : R start start') (hrun : run step start events = some finish) :
    ∃ events' finish', List.Forall₂ M events events' ∧ run step' start' events' = some finish' ∧
      R finish finish' := by
  induction events generalizing start start' with
  | nil =>
      obtain rfl := Option.some.inj hrun
      exact ⟨[], start', .nil, rfl, hstart⟩
  | cons event events ih =>
      obtain ⟨next, hnext, hrest⟩ := Option.bind_eq_some_iff.mp hrun
      obtain ⟨event', next', hevent, hnext', hrelated⟩ := hstep start event next start' hstart hnext
      obtain ⟨events', finish', hevents, hrun', hfinish⟩ := ih hrelated hrest
      refine ⟨event' :: events', finish', .cons hevent hevents, ?_, hfinish⟩
      rw [run_cons, hnext', Option.bind_some, hrun']

end Machine
