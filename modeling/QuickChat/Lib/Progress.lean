import Mathlib.Data.Prod.Lex
import Mathlib.Logic.Hydra
import QuickChat.Lib.Lease

/-!
# Calls come to rest

A program is finite on each of its paths, but nothing bounds the length of the paths, since an effect
may have infinitely many answers. So what the calls have still to do is no number: it is the multiset of
their programs, where a step puts the rest of one program in the place of that program. A step that
puts a call to sleep leaves the programs as they are, and there is one call less awake.

Both together go down with every step, as long as no call is new and none wakes up for no reason. So
the calls come to rest on every way that is left to them: each that has not returned is blocked, or
stuck before an effect that has no answer. Where every call leases its connection, a call that is
blocked holds none, and rest means that all of them have returned.
-/

universe u

namespace Program

variable {E : Type u} {R : E → Type u} {α : Type u}

/-- The rest of a program behind its first effect. -/
inductive Continues : Program E R α → Program E R α → Prop where
  | intro (effect : E) (next : R effect → Program E R α) (answer : R effect) :
      Continues (next answer) (.call effect next)

/-- A program is a tree, and what follows its effect is one of its subtrees. -/
theorem wellFounded_continues : WellFounded (Continues : Program E R α → Program E R α → Prop) := by
  constructor
  intro program
  induction program with
  | ret value => exact ⟨_, nofun⟩
  | call effect next ih =>
      constructor
      intro rest hrest
      cases hrest with
      | intro _ _ answer => exact ih answer

end Program

namespace Monitor

open Program Relation

variable {ω κ E α : Type u} {R : E → Type u} {programs : ω → PoolProgram κ R α}
  {system next : System ω κ R α} {event : Event ω κ R} {events : List (Event ω κ R)}
  {connections : List κ}

def Event.Proceeds : Event ω κ R → Prop
  | .start _ => False
  | .proceed _ _ _ => True
  | .spurious _ => False
  | .finish _ => True

instance : DecidablePred (Event.Proceeds : Event ω κ R → Prop) := fun event => by
  cases event <;> unfold Event.Proceeds <;> infer_instance

inductive Call.Halted (call : Call ω κ R α) : Prop where
  | blocked (hblocked : call.Blocked)
  | unanswered (effect : E) (rest : R effect → PoolProgram κ R α)
      (hstatus : call.status = .ready (.call (.other effect) rest)) (hempty : IsEmpty (R effect))

def AtRest (system : System ω κ R α) : Prop := ∀ call ∈ system.running, call.Halted

def ops (system : System ω κ R α) : List ω :=
  (system.running ++ system.finished).map Call.op

/-! ### What is left to do -/

/-- The programs of the calls, and how many of the calls are awake. -/
def rank (calls : List (Call ω κ R α)) : Multiset (PoolProgram κ R α) × ℕ :=
  (calls.map fun call => call.status.program, calls.countP fun call => ¬ call.Blocked)

/-- A program goes on, or the programs stay and a call falls asleep. -/
def Less : Multiset (PoolProgram κ R α) × ℕ → Multiset (PoolProgram κ R α) × ℕ → Prop :=
  Prod.Lex (CutExpand Continues) (· < ·)

theorem wellFounded_less :
    WellFounded (Less : Multiset (PoolProgram κ R α) × ℕ → Multiset (PoolProgram κ R α) × ℕ → Prop) :=
  wellFounded_continues.cutExpand.prod_lex Nat.lt_wfRel.wf

theorem rank_split (before after : List (Call ω κ R α)) (call : Call ω κ R α) :
    rank (before ++ call :: after) =
      ((rank (before ++ after)).1 + {call.status.program},
        (rank (before ++ after)).2 + if call.Blocked then 0 else 1) := by
  ext1
  · simp only [rank, List.map_append, List.map_cons]
    rw [← Multiset.coe_add, ← Multiset.coe_add, ← Multiset.cons_coe, ← Multiset.singleton_add]
    abel
  · simp only [rank, List.countP_append, List.countP_cons]
    by_cases hblocked : call.Blocked
    · simp [hblocked]
    · simp only [hblocked, not_false_eq_true, decide_true, if_true, if_false]
      omega

theorem less_of_continues {before after : List (Call ω κ R α)} {call call' : Call ω κ R α}
    (hcontinues : Continues call'.status.program call.status.program) :
    Less (rank (before ++ call' :: after)) (rank (before ++ call :: after)) := by
  rw [rank_split, rank_split]
  exact .left _ _ (cutExpand_add_single _ hcontinues)

theorem less_of_blocked {before after : List (Call ω κ R α)} {call call' : Call ω κ R α}
    (hprogram : call'.status.program = call.status.program) (hawake : ¬ call.Blocked)
    (hblocked : call'.Blocked) :
    Less (rank (before ++ call' :: after)) (rank (before ++ call :: after)) := by
  rw [rank_split, rank_split, hprogram, if_pos hblocked, if_neg hawake]
  exact .right _ (Nat.lt_succ_self _)

theorem less_of_finished {before after : List (Call ω κ R α)} {call : Call ω κ R α} :
    Less (rank (before ++ after)) (rank (before ++ call :: after)) := by
  rw [rank_split]
  refine .left _ _ ?_
  have hcut := (cutExpand_add_left (r := Continues) (rank (before ++ after)).1).mpr
    (cutExpand_zero (x := call.status.program))
  rwa [add_zero] at hcut

theorem map_program_of_notify {calls running : List (Call ω κ R α)} {wake : Nat}
    (hnotify : notify calls wake = some running) :
    (running.map fun call => call.status.program) = calls.map fun call => call.status.program := by
  have hclients := congrArg (List.map Pool.Client.program) (map_client_of_notify hnotify)
  rwa [List.map_map, List.map_map] at hclients

theorem less_of_notify {before after running : List (Call ω κ R α)} {call call' : Call ω κ R α}
    {wake : Nat} (hcontinues : Continues call'.status.program call.status.program)
    (hnotify : notify (before ++ call' :: after) wake = some running) :
    Less (rank running) (rank (before ++ call :: after)) := by
  have hprograms : (rank running).1 = (rank (before ++ call' :: after)).1 := by
    unfold rank
    rw [map_program_of_notify hnotify]
  have hless : CutExpand Continues (rank running).1 (rank (before ++ call :: after)).1 := by
    rw [hprograms, rank_split, rank_split]
    exact cutExpand_add_single _ hcontinues
  exact Prod.Lex.left _ _ hless

theorem less_enter {i : Nat} {call : Call ω κ R α} {rest : κ → PoolProgram κ R α}
    (hget : system.running[i]? = some call)
    (hprogram : call.status.program = .call .getConnection rest) (hawake : ¬ call.Blocked) :
    Less (rank (enter system i call rest).running) (rank system.running) := by
  obtain ⟨before, after, hrunning, hset, -⟩ := getElem?_split hget
  unfold enter
  split
  · rw [hset, hrunning]
    exact less_of_blocked hprogram.symm hawake rfl
  · rename_i connection idle hidle
    rw [hset, hrunning]
    refine less_of_continues ?_
    rw [hprogram]
    exact Continues.intro (R := PoolEffect.Answer R) .getConnection rest connection

/-- Every step goes on with some program, or puts a call to sleep. -/
theorem less_of_step (hproceeds : event.Proceeds) (hstep : step programs system event = some next) :
    Less (rank next.running) (rank system.running) := by
  cases event with
  | start op => exact hproceeds.elim
  | spurious i => exact hproceeds.elim
  | proceed i answer wake =>
      obtain ⟨call, hget, hstep⟩ := Option.bind_eq_some_iff.mp hstep
      obtain ⟨before, after, hrunning, hset, -⟩ := getElem?_split hget
      split at hstep
      · exact absurd hstep (by simp)
      · rename_i rest hstatus
        exact Option.some.inj hstep ▸ less_enter hget (by rw [hstatus]; rfl)
          (by simp [Call.Blocked, hstatus])
      · exact absurd hstep (by simp)
      · rename_i rest hstatus
        exact Option.some.inj hstep ▸ less_enter hget (by rw [hstatus]; rfl)
          (by simp [Call.Blocked, hstatus])
      · rename_i connection rest hstatus
        obtain ⟨running, hnotify, rfl⟩ := Option.map_eq_some_iff.mp hstep
        rw [hset] at hnotify
        rw [hrunning]
        refine less_of_notify ?_ hnotify
        rw [hstatus]
        exact .intro _ rest PUnit.unit
      · rename_i effect rest hstatus
        obtain ⟨result, -, rfl⟩ := Option.map_eq_some_iff.mp hstep
        rw [hset, hrunning]
        refine less_of_continues ?_
        rw [hstatus]
        exact .intro _ rest result
  | finish i =>
      obtain ⟨call, hget, hstep⟩ := Option.bind_eq_some_iff.mp hstep
      obtain ⟨before, after, hrunning, -, herase⟩ := getElem?_split hget
      split at hstep
      · rw [herase] at hstep
        obtain rfl := Option.some.inj hstep
        rw [hrunning]
        exact less_of_finished
      · exact absurd hstep (by simp)

theorem map_op_set {calls : List (Call ω κ R α)} {i : Nat} {call call' : Call ω κ R α}
    (hget : calls[i]? = some call) (hop : call'.op = call.op) :
    (calls.set i call').map Call.op = calls.map Call.op := by
  obtain ⟨before, after, hcalls, hset, -⟩ := getElem?_split hget
  rw [hset, hcalls, List.map_append, List.map_append, List.map_cons, List.map_cons, hop]

theorem map_op_of_notify {calls running : List (Call ω κ R α)} {wake : Nat}
    (hnotify : notify calls wake = some running) : running.map Call.op = calls.map Call.op := by
  rcases notify_cases hnotify with ⟨-, rfl⟩ | ⟨before, after, call, woken, rfl, hwake, rfl⟩
  · rfl
  · obtain ⟨rest, -, rfl⟩ := wake_eq_some.mp hwake
    simp

theorem ops_congr (hrunning : next.running.map Call.op = system.running.map Call.op)
    (hfinished : next.finished = system.finished) : ops next = ops system := by
  rw [ops, ops, List.map_append, List.map_append, hrunning, hfinished]

theorem ops_enter {i : Nat} {call : Call ω κ R α} {rest : κ → PoolProgram κ R α}
    (hget : system.running[i]? = some call) : ops (enter system i call rest) = ops system := by
  unfold enter
  split
  · exact ops_congr (map_op_set hget rfl) rfl
  · exact ops_congr (map_op_set hget rfl) rfl

/-- Calls end and fall asleep, and are never exchanged. -/
theorem ops_of_step (hproceeds : event.Proceeds) (hstep : step programs system event = some next) :
    (ops next).Perm (ops system) := by
  cases event with
  | start op => exact hproceeds.elim
  | spurious i => exact hproceeds.elim
  | proceed i answer wake =>
      obtain ⟨call, hget, hstep⟩ := Option.bind_eq_some_iff.mp hstep
      refine .of_eq ?_
      split at hstep
      · exact absurd hstep (by simp)
      · exact Option.some.inj hstep ▸ ops_enter hget
      · exact absurd hstep (by simp)
      · exact Option.some.inj hstep ▸ ops_enter hget
      · obtain ⟨running, hnotify, rfl⟩ := Option.map_eq_some_iff.mp hstep
        exact ops_congr ((map_op_of_notify hnotify).trans (map_op_set hget rfl)) rfl
      · obtain ⟨result, -, rfl⟩ := Option.map_eq_some_iff.mp hstep
        exact ops_congr (map_op_set hget rfl) rfl
  | finish i =>
      obtain ⟨call, hget, hstep⟩ := Option.bind_eq_some_iff.mp hstep
      obtain ⟨before, after, hrunning, -, herase⟩ := getElem?_split hget
      split at hstep
      · obtain rfl := Option.some.inj hstep
        rw [ops, ops, herase, hrunning]
        refine List.Perm.map _ ?_
        have hperm := (List.perm_append_singleton call (after ++ system.finished)).append_left before
        simpa only [List.append_assoc, List.cons_append] using hperm
      · exact absurd hstep (by simp)

/-! ### Who can go on -/

theorem exists_notify (calls : List (Call ω κ R α)) :
    ∃ wake running, notify calls wake = some running := by
  by_cases hblocked : ∃ call ∈ calls, call.Blocked
  · obtain ⟨call, hcall, hblocked⟩ := hblocked
    obtain ⟨i, hi, rfl⟩ := List.getElem_of_mem hcall
    have hwake : ∃ woken, (calls[i]).wake = some woken := by
      cases hstatus : (calls[i]).status with
      | ready program => simp [Call.Blocked, hstatus] at hblocked
      | woken rest => simp [Call.Blocked, hstatus] at hblocked
      | blocked rest => exact ⟨_, wake_eq_some.mpr ⟨rest, hstatus, rfl⟩⟩
    obtain ⟨woken, hwake⟩ := hwake
    refine ⟨i, calls.set i woken, ?_⟩
    have hnot : ¬ ∀ call ∈ calls, ¬ call.Blocked :=
      fun hall => hall _ (List.getElem_mem hi) hblocked
    rw [notify, if_neg hnot, List.getElem?_eq_getElem hi, Option.bind_some, hwake]
    rfl
  · refine ⟨0, calls, if_pos fun call hcall hcallBlocked => hblocked ⟨call, hcall, hcallBlocked⟩⟩

/-- A call that is neither blocked nor before an effect without an answer can go on. -/
theorem exists_step_of_not_halted {call : Call ω κ R α} (hcall : call ∈ system.running)
    (hhalted : ¬ call.Halted) :
    ∃ event next, event.Proceeds ∧ step programs system event = some next := by
  classical
  obtain ⟨i, hi, rfl⟩ := List.getElem_of_mem hcall
  have hget : system.running[i]? = some system.running[i] := List.getElem?_eq_getElem hi
  cases hstatus : (system.running[i]).status with
  | blocked rest => exact absurd (.blocked (by simp [Call.Blocked, hstatus])) hhalted
  | woken rest =>
      refine ⟨.proceed i (fun _ => none) 0, enter system i system.running[i] rest, trivial, ?_⟩
      simp [step, hget, hstatus]
  | ready program =>
      cases program with
      | ret value =>
          refine ⟨.finish i, ⟨system.idle, system.running.eraseIdx i,
            system.finished ++ [system.running[i]]⟩, trivial, ?_⟩
          simp [step, hget, hstatus]
      | call effect rest =>
          cases effect with
          | getConnection =>
              refine ⟨.proceed i (fun _ => none) 0, enter system i system.running[i] rest,
                trivial, ?_⟩
              simp [step, hget, hstatus]
          | returnConnection connection =>
              obtain ⟨wake, running, hnotify⟩ := exists_notify (system.running.set i
                (system.running[i].perform (.returnConnection connection) ⟨⟩ (rest ⟨⟩)))
              refine ⟨.proceed i (fun _ => none) wake,
                ⟨system.idle ++ [connection], running, system.finished⟩, trivial, ?_⟩
              simp [step, hget, hstatus, hnotify]
          | other effect =>
              have hanswer : Nonempty (R effect) := by
                by_contra hempty
                exact hhalted (.unanswered effect rest hstatus (not_nonempty_iff.mp hempty))
              obtain ⟨answer⟩ := hanswer
              refine ⟨.proceed i (Function.update (fun _ => none) effect (some answer)) 0,
                ⟨system.idle, system.running.set i
                  (system.running[i].perform (.other effect) answer (rest answer)),
                  system.finished⟩, trivial, ?_⟩
              simp [step, hget, hstatus]
              rfl

variable (programs) in
theorem exists_step_of_not_atRest (hrest : ¬ AtRest system) :
    ∃ event next, event.Proceeds ∧ step programs system event = some next := by
  obtain ⟨call, hcall, hhalted⟩ : ∃ call ∈ system.running, ¬ call.Halted := by
    simpa [AtRest] using hrest
  exact exists_step_of_not_halted hcall hhalted

/-- **Calls come to rest.** Whatever the programs are, and whatever state the calls are in: as long as
no call is new and none wakes up for no reason, they come to rest on every way. -/
theorem inevitable_atRest (programs : ω → PoolProgram κ R α) (system : System ω κ R α) :
    Machine.Inevitable (Machine.only Event.Proceeds (step programs)) AtRest system := by
  refine Machine.inevitable_of_wellFounded (I := fun _ => True) wellFounded_less
    (fun system => rank system.running) ?_ ?_ trivial
  · intro system _
    by_cases hrest : AtRest system
    · exact .inl hrest
    · obtain ⟨event, next, hproceeds, hstep⟩ := exists_step_of_not_atRest programs hrest
      exact .inr ⟨event, next, Machine.only_eq_some.mpr ⟨hproceeds, hstep⟩⟩
  · intro system event next _ hstep
    obtain ⟨hproceeds, hstep⟩ := Machine.only_eq_some.mp hstep
    exact ⟨trivial, less_of_step hproceeds hstep⟩

/-! ### At rest -/

theorem blocked_of_atRest (hanswers : ∀ effect : E, Nonempty (R effect)) (hrest : AtRest system) :
    ∀ call ∈ system.running, call.Blocked := by
  intro call hcall
  cases hrest call hcall with
  | blocked hblocked => exact hblocked
  | unanswered effect rest hstatus hempty =>
      exact absurd (hanswers effect) (not_nonempty_iff.mpr hempty)

/-- Where all calls are blocked, nothing is idle. -/
theorem idle_eq_nil_of_blocked
    (hrun : Machine.run (step programs) (start connections) events = some system)
    (hblocked : ∀ call ∈ system.running, call.Blocked) (hrunning : system.running ≠ []) :
    system.idle = [] := by
  obtain ⟨call, hcall⟩ := List.exists_mem_of_ne_nil _ hrunning
  have hawake := awake_of_run hrun ⟨call, hcall, hblocked call hcall⟩
  have hwoken : woken system.running = 0 := by
    refine List.countP_eq_zero.mpr fun other hother => ?_
    have hother := hblocked other hother
    cases hstatus : other.status with
    | ready program => simp [Call.Blocked, hstatus] at hother
    | blocked rest => simp [Call.Woken, hstatus]
    | woken rest => simp [Call.Blocked, hstatus] at hother
  rw [hwoken] at hawake
  exact List.length_eq_zero_iff.mp (Nat.le_zero.mp hawake)

section Watch

variable {σ : Type*} {observe : σ → (effect : PoolEffect κ E) → effect.Answer R → σ} {init : σ}
  {Good : κ → Prop} {P : ω → σ → Prop} {Q : ω → σ → α → Prop} {call : Call ω κ R α}

/-- A call that is blocked keeps to its operation with any good connection that it may be given. -/
theorem Watched.of_blocked (hcall : Watched observe init Good P Q call) (hblocked : call.Blocked)
    (connection : κ) (hgood : Good connection) :
    P call.op (observe (usage observe init call.trace) .getConnection connection) := by
  cases hstatus : call.status with
  | ready program => simp [Call.Blocked, hstatus] at hblocked
  | woken rest => simp [Call.Blocked, hstatus] at hblocked
  | blocked rest =>
      rw [Watched, hstatus] at hcall
      exact Program.wp_here (hcall.2 connection hgood)

end Watch

theorem held_of_blocked (hprograms : ∀ op, Leases (programs op))
    (hrun : Machine.run (step programs) (start connections) events = some system)
    {call : Call ω κ R α} (hcall : call ∈ system.running) (hblocked : call.Blocked)
    (connection : κ) : held call.trace = [] := by
  have hlease :=
    ((watched_of_leases hprograms hrun).running call hcall).of_blocked hblocked connection trivial
  rw [usage_record] at hlease
  have htook : taken (record call.trace .getConnection connection) = taken call.trace ++ [connection] :=
    taken_record .getConnection connection
  have hfirst {other : κ} (htaken : taken call.trace ++ [connection] = [other]) :
      taken call.trace = [] :=
    List.append_inj_left' (htaken.trans (List.nil_append [other]).symm) rfl
  have hnone : taken call.trace = [] := by
    cases hlease with
    | before htaken _ => exact absurd (htook.symm.trans htaken) (by simp)
    | during other htaken _ => exact hfirst (htook.symm.trans htaken)
    | after other htaken _ => exact hfirst (htook.symm.trans htaken)
  rw [held, hnone, List.drop_nil]

/-- **Leases end.** Where every call leases its connection, the pool has one, and every effect has an
answer, rest means that all calls have returned. -/
theorem running_eq_nil_of_atRest (hprograms : ∀ op, Leases (programs op))
    (hanswers : ∀ effect : E, Nonempty (R effect)) (hconnections : connections ≠ [])
    (hrun : Machine.run (step programs) (start connections) events = some system)
    (hrest : AtRest system) : system.running = [] := by
  by_contra hrunning
  have hblocked := blocked_of_atRest hanswers hrest
  have hidle := idle_eq_nil_of_blocked hrun hblocked hrunning
  obtain ⟨connection, hconnection⟩ := List.exists_mem_of_ne_nil _ hconnections
  have hheld : (system.running ++ system.finished).flatMap (fun call => held call.trace) = [] := by
    refine List.flatMap_eq_nil_iff.mpr fun call hcall => ?_
    rcases List.mem_append.mp hcall with hcall | hcall
    · exact held_of_blocked hprograms hrun hcall (hblocked call hcall) connection
    · exact (over_of_run hprograms hrun call hcall).held_eq
  have hperm := idle_held_perm hrun fun call hcall => (lease_of_run hprograms hrun call hcall).returns
  rw [hidle, hheld] at hperm
  exact hconnections (List.nil_perm.mp hperm)

end Monitor
