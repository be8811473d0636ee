import Mathlib.Control.Lawful
import Mathlib.Logic.IsEmpty.Basic

/-!
# Programs that call their environment

A program either returns or performs an effect and continues with the answer. What the effects mean
is left to a handler, so one embedding of a function serves every reading of it: run against a store
that behaves, against one that answers anything, or step by step among other programs.

`interp` reads the effects into any monad, and it commutes with sequencing; two readings stacked on
top of each other are one reading. `wp` watches the effects instead: a state is kept of what has
been performed and answered, and a program is judged by the states it goes through.
-/

universe u v w

/-- A computation that performs effects of `E`; `R e` is the type of the answer to `e`. -/
inductive Program (E : Type u) (R : E → Type v) (α : Type w) where
  | ret (value : α)
  | call (effect : E) (next : R effect → Program E R α)

namespace Program

variable {E : Type u} {R : E → Type v} {α β : Type w}

def bind : Program E R α → (α → Program E R β) → Program E R β
  | ret value, second => second value
  | call effect next, second => call effect fun answer => (next answer).bind second

instance : Monad (Program E R) where
  pure := ret
  bind := bind

def perform {E : Type u} {R : E → Type v} (effect : E) : Program E R (R effect) :=
  call effect ret

@[simp]
theorem pure_eq_ret (value : α) : (pure value : Program E R α) = ret value := rfl

@[simp]
theorem ret_bind (value : α) (second : α → Program E R β) :
    (ret value >>= second : Program E R β) = second value := rfl

@[simp]
theorem call_bind (effect : E) (next : R effect → Program E R α) (second : α → Program E R β) :
    (call effect next >>= second : Program E R β) =
      call effect fun answer => next answer >>= second := rfl

theorem bind_ret (program : Program E R α) : (program >>= ret) = program := by
  induction program with
  | ret value => rfl
  | call effect next ih => simp only [call_bind, ih]

protected theorem bind_assoc {γ : Type w} (program : Program E R α) (second : α → Program E R β)
    (third : β → Program E R γ) :
    (program >>= second >>= third) = program >>= fun value => second value >>= third := by
  induction program with
  | ret value => rfl
  | call effect next ih => simp only [call_bind, ih]

instance : LawfulMonad (Program E R) :=
  LawfulMonad.mk' _ bind_ret (fun _ _ => rfl) Program.bind_assoc

/-! ### Reading the effects -/

section Interp

variable {m : Type v → Type w} [Monad m] {R : E → Type v} {α β : Type v}

/-- Run the program in a monad that knows what each effect does. -/
def interp (handler : (effect : E) → m (R effect)) : Program E R α → m α
  | ret value => pure value
  | call effect next => handler effect >>= fun answer => (next answer).interp handler

variable (handler : (effect : E) → m (R effect))

@[simp]
theorem interp_ret (value : α) : (ret value : Program E R α).interp handler = pure value := rfl

@[simp]
theorem interp_call (effect : E) (next : R effect → Program E R α) :
    (call effect next).interp handler =
      handler effect >>= fun answer => (next answer).interp handler := rfl

@[simp]
theorem interp_bind [LawfulMonad m] (program : Program E R α) (second : α → Program E R β) :
    (program >>= second).interp handler =
      program.interp handler >>= fun value => (second value).interp handler := by
  induction program with
  | ret value => simp
  | call effect next ih => simp only [call_bind, interp_call, ih, LawfulMonad.bind_assoc]

end Interp

/-! ### A state that the effects change -/

section State

variable {σ : Type v} {R : E → Type v} {α : Type v}
  {handler : (effect : E) → StateT σ Option (R effect)}

/-- What every effect keeps, the program keeps. -/
theorem interp_invariant {P : σ → Prop}
    (hhandler : ∀ effect state answer next,
      P state → (handler effect).run state = some (answer, next) → P next)
    {program : Program E R α} {state next : σ} {value : α} (hstate : P state)
    (hrun : (program.interp handler).run state = some (value, next)) : P next := by
  induction program generalizing state with
  | ret returned =>
      obtain ⟨-, rfl⟩ := Prod.mk.inj (Option.some.inj hrun)
      exact hstate
  | call effect rest ih =>
      rw [interp_call, StateT.run_bind] at hrun
      obtain ⟨⟨answer, middle⟩, hcall, hrest⟩ := Option.bind_eq_some_iff.mp hrun
      exact ih answer (hhandler effect state answer middle hstate hcall) hrest

/-- A program whose effects are all answered returns. -/
theorem interp_total
    (hhandler : ∀ effect state, ∃ answer next, (handler effect).run state = some (answer, next))
    (program : Program E R α) (state : σ) :
    ∃ value next, (program.interp handler).run state = some (value, next) := by
  induction program generalizing state with
  | ret value => exact ⟨value, state, rfl⟩
  | call effect rest ih =>
      obtain ⟨answer, middle, hcall⟩ := hhandler effect state
      obtain ⟨value, next, hrest⟩ := ih answer middle
      refine ⟨value, next, ?_⟩
      rw [interp_call, StateT.run_bind, hcall]
      exact hrest

/-- What is behind a program that may raise an error runs from the state that it leaves. -/
theorem interp_raising_bind {ε β : Type v} (handler : (effect : E) → StateT σ Option (R effect))
    (program : ExceptT ε (Program E R) α) (second : α → ExceptT ε (Program E R) β) (state : σ) :
    ((program >>= second).run.interp handler).run state =
      ((program.run.interp handler).run state).bind fun
        | (.ok value, next) => ((second value).run.interp handler).run next
        | (.error e, next) => some (.error e, next) := by
  rw [ExceptT.run_bind, interp_bind, StateT.run_bind]
  change ((program.run.interp handler).run state).bind _ = _
  cases (program.run.interp handler).run state with
  | none => rfl
  | some result =>
      obtain ⟨outcome, next⟩ := result
      cases outcome with
      | ok value => rfl
      | error e => rfl

end State

/-! ### The effects along a path -/

/-- `program.Performs trace value`: answered as in `trace`, the program performs exactly the effects
of `trace`, in that order, and returns `value`. -/
inductive Performs : Program E R α → List ((effect : E) × R effect) → α → Prop where
  | ret (value : α) : Performs (ret value) [] value
  | call {effect : E} {next : R effect → Program E R α} {answer : R effect}
      {trace : List ((effect : E) × R effect)} {value : α} :
      Performs (next answer) trace value → Performs (call effect next) (⟨effect, answer⟩ :: trace) value

theorem exists_performs (hanswers : ∀ effect, Nonempty (R effect)) (program : Program E R α) :
    ∃ trace value, program.Performs trace value := by
  induction program with
  | ret value => exact ⟨[], value, .ret value⟩
  | call effect next ih =>
      obtain ⟨answer⟩ := hanswers effect
      obtain ⟨trace, value, htrace⟩ := ih answer
      exact ⟨⟨effect, answer⟩ :: trace, value, .call htrace⟩

/-- `program.Ends trace outcome`: answered as in `trace`, the program performs the effects of `trace`,
and then returns, or performs an effect that has no answer. -/
inductive Ends : Program E R α → List ((effect : E) × R effect) → Option α → Prop where
  | ret (value : α) : Ends (ret value) [] (some value)
  | stuck {effect : E} {next : R effect → Program E R α} (hstuck : IsEmpty (R effect)) :
      Ends (call effect next) [] none
  | call {effect : E} {next : R effect → Program E R α} {answer : R effect}
      {trace : List ((effect : E) × R effect)} {outcome : Option α} :
      Ends (next answer) trace outcome → Ends (call effect next) (⟨effect, answer⟩ :: trace) outcome

section Ends

variable {trace : List ((effect : E) × R effect)}

@[simp]
theorem ends_ret_iff {value : α} {outcome : Option α} :
    (ret value : Program E R α).Ends trace outcome ↔ trace = [] ∧ outcome = some value := by
  constructor
  · rintro ⟨⟩
    exact ⟨rfl, rfl⟩
  · rintro ⟨rfl, rfl⟩
    exact .ret value

theorem ends_call_iff {effect : E} {next : R effect → Program E R α} {outcome : Option α} :
    (call effect next).Ends trace outcome ↔
      (IsEmpty (R effect) ∧ trace = [] ∧ outcome = none) ∨
        ∃ answer rest, trace = ⟨effect, answer⟩ :: rest ∧ (next answer).Ends rest outcome := by
  constructor
  · intro hends
    cases hends with
    | stuck hstuck => exact .inl ⟨hstuck, rfl, rfl⟩
    | @call _ _ answer rest _ hrest => exact .inr ⟨answer, rest, rfl, hrest⟩
  · rintro (⟨hstuck, rfl, rfl⟩ | ⟨answer, rest, rfl, hrest⟩)
    · exact .stuck hstuck
    · exact .call hrest

theorem ends_call_iff_of_nonempty {effect : E} [Nonempty (R effect)]
    {next : R effect → Program E R α} {outcome : Option α} :
    (call effect next).Ends trace outcome ↔
      ∃ answer rest, trace = ⟨effect, answer⟩ :: rest ∧ (next answer).Ends rest outcome := by
  rw [ends_call_iff, or_iff_right]
  rintro ⟨hstuck, -⟩
  exact not_isEmpty_of_nonempty _ hstuck

/-- A sequence of two ends in the first part, without a value, or in the second behind the first. -/
theorem ends_bind_iff {program : Program E R α} {second : α → Program E R β} {outcome : Option β} :
    (program >>= second).Ends trace outcome ↔
      (program.Ends trace none ∧ outcome = none) ∨
        ∃ value first rest, trace = first ++ rest ∧ program.Ends first (some value) ∧
          (second value).Ends rest outcome := by
  induction program generalizing trace with
  | ret value =>
      rw [ret_bind]
      constructor
      · intro hends
        exact .inr ⟨value, [], trace, rfl, .ret value, hends⟩
      · rintro (⟨hends, -⟩ | ⟨value', first, rest, rfl, hfirst, hrest⟩)
        · exact absurd (ends_ret_iff.mp hends).2 (by simp)
        · obtain ⟨rfl, hvalue⟩ := ends_ret_iff.mp hfirst
          rwa [← Option.some.inj hvalue]
  | call effect next ih =>
      rw [call_bind]
      constructor
      · intro hends
        rcases ends_call_iff.mp hends with ⟨hstuck, rfl, rfl⟩ | ⟨answer, tail, rfl, htail⟩
        · exact .inl ⟨.stuck hstuck, rfl⟩
        · rcases (ih answer).mp htail with ⟨hnone, rfl⟩ | ⟨value, first, rest, rfl, hfirst, hrest⟩
          · exact .inl ⟨.call hnone, rfl⟩
          · exact .inr ⟨value, ⟨effect, answer⟩ :: first, rest, rfl, .call hfirst, hrest⟩
      · rintro (⟨hends, rfl⟩ | ⟨value, first, rest, rfl, hfirst, hrest⟩)
        · rcases ends_call_iff.mp hends with ⟨hstuck, rfl, -⟩ | ⟨answer, tail, rfl, htail⟩
          · exact .stuck hstuck
          · exact .call ((ih answer).mpr (.inl ⟨htail, rfl⟩))
        · rcases ends_call_iff.mp hfirst with ⟨-, -, hnone⟩ | ⟨answer, tail, rfl, htail⟩
          · exact absurd hnone (by simp)
          · exact .call ((ih answer).mpr (.inr ⟨value, tail, rest, rfl, htail, hrest⟩))

theorem ends_raising_bind_iff {ε : Type w} {program : ExceptT ε (Program E R) α}
    {second : α → ExceptT ε (Program E R) β} {value : β} :
    (program >>= second).run.Ends trace (some (.ok value)) ↔
      ∃ middle first rest, trace = first ++ rest ∧ program.run.Ends first (some (.ok middle)) ∧
        (second middle).run.Ends rest (some (.ok value)) := by
  rw [ExceptT.run_bind, ends_bind_iff]
  constructor
  · rintro (⟨-, hnone⟩ | ⟨result, first, rest, htrace, hfirst, hrest⟩)
    · exact absurd hnone (by simp)
    · cases result with
      | error e => exact absurd (ends_ret_iff.mp hrest).2 (by simp)
      | ok middle => exact ⟨middle, first, rest, htrace, hfirst, hrest⟩
  · rintro ⟨middle, first, rest, htrace, hfirst, hrest⟩
    exact .inr ⟨.ok middle, first, rest, htrace, hfirst, hrest⟩

end Ends

def Avoids (P : E → Prop) : Program E R α → Prop
  | ret _ => True
  | call effect next => ¬ P effect ∧ ∀ answer, (next answer).Avoids P

variable {P : E → Prop}

@[simp]
theorem avoids_call (effect : E) (next : R effect → Program E R α) :
    (call effect next).Avoids P ↔ ¬ P effect ∧ ∀ answer, (next answer).Avoids P := Iff.rfl

theorem Avoids.bind {program : Program E R α} {second : α → Program E R β}
    (hfirst : program.Avoids P) (hsecond : ∀ value, (second value).Avoids P) :
    (program >>= second).Avoids P := by
  induction program with
  | ret value => exact hsecond value
  | call effect next ih => exact ⟨hfirst.1, fun answer => ih answer (hfirst.2 answer)⟩

theorem Avoids.mono {P' : E → Prop} {program : Program E R α} (hP : ∀ effect, P' effect → P effect)
    (hprogram : program.Avoids P) : program.Avoids P' := by
  induction program with
  | ret value => exact trivial
  | call effect next ih =>
      exact ⟨fun heffect => hprogram.1 (hP effect heffect), fun answer => ih answer (hprogram.2 answer)⟩

def Yields (Q : α → Prop) : Program E R α → Prop
  | ret value => Q value
  | call _ next => ∀ answer, (next answer).Yields Q

section Yields

variable {Q : α → Prop} {program : Program E R α}

theorem yields_of_forall (hQ : ∀ value, Q value) (program : Program E R α) : program.Yields Q := by
  induction program with
  | ret value => exact hQ value
  | call effect next ih => exact ih

theorem yields_bind {Q : β → Prop} {second : α → Program E R β} :
    (program >>= second).Yields Q ↔ program.Yields fun value => (second value).Yields Q := by
  induction program with
  | ret value => rfl
  | call effect next ih => exact forall_congr' ih

theorem Yields.mono {Q' : α → Prop} (hprogram : program.Yields Q) (hQ : ∀ value, Q value → Q' value) :
    program.Yields Q' := by
  induction program with
  | ret value => exact hQ value hprogram
  | call effect next ih => exact fun answer => ih answer (hprogram answer)

/-- An interpretation is one of the answers that the program can be given. -/
theorem Yields.of_interp {σ : Type v} {R : E → Type v} {α : Type v} {Q : α → Prop}
    {program : Program E R α} {handler : (effect : E) → StateT σ Option (R effect)}
    (hprogram : program.Yields Q) {state next : σ} {value : α}
    (hrun : (program.interp handler).run state = some (value, next)) : Q value := by
  induction program generalizing state with
  | ret returned =>
      obtain ⟨rfl, -⟩ := Prod.mk.inj (Option.some.inj hrun)
      exact hprogram
  | call effect rest ih =>
      rw [interp_call, StateT.run_bind] at hrun
      obtain ⟨⟨answer, middle⟩, -, hrest⟩ := Option.bind_eq_some_iff.mp hrun
      exact ih answer (hprogram answer) hrest

end Yields

/-! ### Watching the effects -/

section Watch

variable {σ : Type*} (observe : σ → (effect : E) → R effect → σ)
  (possible : (effect : E) → R effect → Prop) (P : σ → Prop)

/-- From a state of the observer, and with any answers that are possible, the program is in `P` at
every point, and in `Q` when it returns. -/
def wp (Q : σ → α → Prop) : Program E R α → σ → Prop
  | ret value, state => P state ∧ Q state value
  | call effect next, state =>
      P state ∧ ∀ answer, possible effect answer → (next answer).wp Q (observe state effect answer)

variable {observe possible P} {Q Q' : σ → α → Prop} {program : Program E R α} {state : σ}

@[simp]
theorem wp_ret (value : α) :
    (ret value : Program E R α).wp observe possible P Q state ↔ P state ∧ Q state value := Iff.rfl

@[simp]
theorem wp_call (effect : E) (next : R effect → Program E R α) :
    (call effect next).wp observe possible P Q state ↔
      P state ∧ ∀ answer, possible effect answer →
        (next answer).wp observe possible P Q (observe state effect answer) := Iff.rfl

theorem wp_perform {effect : E} {Q : σ → R effect → Prop} :
    (perform effect : Program E R (R effect)).wp observe possible P Q state ↔
      P state ∧ ∀ answer, possible effect answer →
        P (observe state effect answer) ∧ Q (observe state effect answer) answer := Iff.rfl

theorem wp_here (hprogram : program.wp observe possible P Q state) : P state := by
  cases program with
  | ret value => exact hprogram.1
  | call effect next => exact hprogram.1

/-- **The rule of composition.** What the first part comes to is the start of the second. -/
theorem wp_bind {Q : σ → β → Prop} {second : α → Program E R β} :
    (program >>= second).wp observe possible P Q state ↔
      program.wp observe possible P
        (fun state value => (second value).wp observe possible P Q state) state := by
  induction program generalizing state with
  | ret value =>
      rw [ret_bind, wp_ret]
      exact ⟨fun hsecond => ⟨wp_here hsecond, hsecond⟩, fun hsecond => hsecond.2⟩
  | call effect next ih => simp only [call_bind, wp_call, ih]

theorem wp_mono (hQ : ∀ state value, P state → Q state value → Q' state value)
    (hprogram : program.wp observe possible P Q state) : program.wp observe possible P Q' state := by
  induction program generalizing state with
  | ret value => exact ⟨hprogram.1, hQ state value hprogram.1 hprogram.2⟩
  | call effect next ih =>
      exact ⟨hprogram.1, fun answer hanswer => ih answer (hprogram.2 answer hanswer)⟩

theorem wp_congr (hQ : ∀ state value, Q state value ↔ Q' state value) :
    program.wp observe possible P Q state ↔ program.wp observe possible P Q' state :=
  ⟨wp_mono fun state value _ => (hQ state value).mp, wp_mono fun state value _ => (hQ state value).mpr⟩

/-- Watching a program is watching its paths. -/
theorem wp_iff_performs :
    program.wp observe (fun _ _ => True) (fun _ => True) Q state ↔
      ∀ trace value, program.Performs trace value →
        Q (trace.foldl (fun state entry => observe state entry.1 entry.2) state) value := by
  constructor
  · intro hprogram trace value hperforms
    induction hperforms generalizing state with
    | ret value => exact hprogram.2
    | call hrest ih => exact ih (hprogram.2 _ trivial)
  · intro hpaths
    induction program generalizing state with
    | ret value => exact ⟨trivial, hpaths [] value (.ret value)⟩
    | call effect next ih =>
        refine ⟨trivial, fun answer _ => ih answer fun trace value hperforms => ?_⟩
        exact hpaths (⟨effect, answer⟩ :: trace) value (.call hperforms)

/-! ### Programs that may raise an error -/

variable {ε : Type w} {second : α → ExceptT ε (Program E R) β} {Q : σ → Except ε β → Prop}

theorem wp_raising_bind {result : Except ε α} :
    ((ExceptT.mk (pure result) : ExceptT ε (Program E R) α) >>= second).run.wp observe possible P Q
        state ↔
      match result with
      | .ok value => (second value).run.wp observe possible P Q state
      | .error e => P state ∧ Q state (.error e) := by
  cases result with
  | ok value => exact Iff.rfl
  | error e => exact Iff.rfl

/-- The same of a part that may raise: an error is what the whole comes to. -/
theorem wp_try_bind {first : ExceptT ε (Program E R) α} :
    (first >>= second).run.wp observe possible P Q state ↔
      first.run.wp observe possible P
        (fun state result =>
          match result with
          | .ok value => (second value).run.wp observe possible P Q state
          | .error e => P state ∧ Q state (.error e)) state := by
  rw [ExceptT.run_bind, wp_bind]
  refine wp_congr fun state result => ?_
  cases result with
  | ok value => exact Iff.rfl
  | error e => exact Iff.rfl

theorem wp_lift_bind {program : Program E R α} :
    ((ExceptT.lift program : ExceptT ε (Program E R) α) >>= second).run.wp observe possible P Q state ↔
      program.wp observe possible P
        (fun state value => (second value).run.wp observe possible P Q state) state := by
  rw [ExceptT.run_bind_lift, wp_bind]

end Watch

/-! ### Paths on which nothing is raised -/

section Returning

variable {σ : Type*} {ε : Type w} {observe : σ → (effect : E) → R effect → σ}

/-- On every path on which the program raises no error, what has been observed and the value that it
returns are in `Q`. -/
def Returning (observe : σ → (effect : E) → R effect → σ) (program : ExceptT ε (Program E R) α)
    (Q : σ → α → Prop) (state : σ) : Prop :=
  program.run.wp observe (fun _ _ => True) (fun _ => True)
    (fun state result => ∀ value, result = .ok value → Q state value) state

variable {program : ExceptT ε (Program E R) α} {second : α → ExceptT ε (Program E R) β} {state : σ}

theorem returning_mono {Q Q' : σ → α → Prop} (hQ : ∀ state value, Q state value → Q' state value)
    (hprogram : Returning observe program Q state) : Returning observe program Q' state :=
  wp_mono (fun state _ _ hall value hvalue => hQ state value (hall value hvalue)) hprogram

theorem returning_pure {Q : σ → α → Prop} {value : α} :
    Returning observe (pure value : ExceptT ε (Program E R) α) Q state ↔ Q state value := by
  constructor
  · intro hall
    exact hall.2 value rfl
  · intro hvalue
    refine ⟨trivial, fun other hother => ?_⟩
    rwa [← Except.ok.inj hother]

theorem returning_bind {Q : σ → β → Prop} :
    Returning observe (program >>= second) Q state ↔
      Returning observe program (fun state value => Returning observe (second value) Q state)
        state := by
  rw [Returning, ExceptT.run_bind, wp_bind, Returning]
  refine wp_congr fun state result => ?_
  cases result with
  | error e => simp
  | ok value => simp [Returning]

theorem returning_raising {Q : σ → α → Prop} {result : Except ε α} :
    Returning observe (ExceptT.mk (pure result) : ExceptT ε (Program E R) α) Q state ↔
      ∀ value, result = .ok value → Q state value := by
  constructor
  · intro hall
    exact hall.2
  · intro hall
    exact ⟨trivial, hall⟩

/-- To look at the returning paths is to look at what they perform. -/
theorem returning_iff_performs {Q : σ → α → Prop} :
    Returning observe program Q state ↔
      ∀ trace value, program.run.Performs trace (.ok value) →
        Q (trace.foldl (fun state entry => observe state entry.1 entry.2) state) value := by
  rw [Returning, wp_iff_performs]
  constructor
  · intro hall trace value hperforms
    exact hall trace _ hperforms value rfl
  · intro hall trace result hperforms value hvalue
    subst hvalue
    exact hall trace value hperforms

end Returning

section ReturningPerform

variable {σ : Type*} {E : Type u} {R : E → Type w} {ε : Type w}
  {observe : σ → (effect : E) → R effect → σ} {state : σ}

theorem returning_perform {effect : E} {Q : σ → R effect → Prop} :
    Returning observe (ExceptT.lift (perform effect) : ExceptT ε (Program E R) (R effect)) Q state ↔
      ∀ answer, Q (observe state effect answer) answer := by
  have hlift : (ExceptT.lift (perform effect) : ExceptT ε (Program E R) (R effect)).run
      = call effect fun answer => ret (.ok answer) := rfl
  rw [Returning, hlift, wp_call]
  constructor
  · intro hall answer
    exact (hall.2 answer trivial).2 answer rfl
  · intro hall
    refine ⟨trivial, fun answer _ => ⟨trivial, fun other hother => ?_⟩⟩
    rw [← Except.ok.inj hother]
    exact hall answer

theorem returning_perform_bind {β : Type w} {effect : E} {Q : σ → β → Prop}
    {second : R effect → ExceptT ε (Program E R) β} :
    Returning observe ((ExceptT.lift (perform effect) : ExceptT ε (Program E R) (R effect)) >>= second)
        Q state ↔
      ∀ answer, Returning observe (second answer) Q (observe state effect answer) := by
  rw [returning_bind, returning_perform]

end ReturningPerform

end Program
