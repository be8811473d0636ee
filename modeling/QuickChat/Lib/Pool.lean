import QuickChat.Lib.Machine
import QuickChat.Lib.Program
import Mathlib.Algebra.BigOperators.Group.Multiset.Basic
import Mathlib.Algebra.Order.Group.Multiset
import Mathlib.Tactic.Abel
import Mathlib.Tactic.Ring

/-!
# Clients of a pool

A pool is a queue of idle connections. Its clients are programs that may take the connection at the
head of the queue, put one at its end, and perform effects of their own, whose answers are anybody's
guess; a client that finds the queue empty waits. Any number of clients run interleaved, one effect
at a time, and a client that has returned leaves the system with the record of what it took and what
it put back.

The connections are conserved: what is idle and what has been taken are what was there at the start
and what has been put back. So a pool keeps its connections when every client puts back what it took,
and runs dry when clients take one and put nothing back.
-/

universe u

/-- What a client can do: the two operations of the pool, and effects of its own. -/
inductive PoolEffect (κ E : Type u) where
  | getConnection
  | returnConnection (connection : κ)
  | other (effect : E)

def PoolEffect.Answer {κ E : Type u} (R : E → Type u) : PoolEffect κ E → Type u
  | getConnection => κ
  | returnConnection _ => PUnit
  | other effect => R effect

abbrev PoolProgram (κ : Type u) {E : Type u} (R : E → Type u) (α : Type u) :=
  Program (PoolEffect κ E) (PoolEffect.Answer R) α

namespace Pool

variable {κ E α : Type u} {R : E → Type u}

def Touches : PoolEffect κ E → Prop
  | .getConnection => True
  | .returnConnection _ => True
  | .other _ => False

structure Client (κ : Type u) {E : Type u} (R : E → Type u) (α : Type u) where
  taken : List κ
  returned : List κ
  program : PoolProgram κ R α

structure System (κ : Type u) {E : Type u} (R : E → Type u) (α : Type u) where
  idle : List κ
  clients : List (Client κ R α)
  finished : List (Client κ R α)

inductive Event (κ : Type u) {E : Type u} (R : E → Type u) (α : Type u) where
  | start (program : PoolProgram κ R α)
  | proceed (client : Nat) (answer : (effect : E) → Option (R effect))
  | finish (client : Nat)

def Client.advance (client : Client κ R α) (idle : List κ)
    (answer : (effect : E) → Option (R effect)) : Option (List κ × Client κ R α) :=
  match client.program with
  | .ret _ => none
  | .call .getConnection next =>
      match idle with
      | [] => none
      | connection :: idle =>
          some (idle, { client with
            taken := client.taken ++ [connection], program := next connection })
  | .call (.returnConnection connection) next =>
      some (idle ++ [connection], { client with
        returned := client.returned ++ [connection], program := next ⟨⟩ })
  | .call (.other effect) next =>
      (answer effect).map fun result => (idle, { client with program := next result })

def step (system : System κ R α) : Event κ R α → Option (System κ R α)
  | .start program => some { system with clients := system.clients ++ [⟨[], [], program⟩] }
  | .proceed i answer =>
      system.clients[i]?.bind fun client =>
        (client.advance system.idle answer).map fun (idle, client) =>
          { system with idle := idle, clients := system.clients.set i client }
  | .finish i =>
      system.clients[i]?.bind fun client =>
        match client.program with
        | .ret _ => some { system with
            clients := system.clients.eraseIdx i, finished := system.finished ++ [client] }
        | .call _ _ => none

def start (connections : List κ) : System κ R α := ⟨connections, [], []⟩

def System.taken (system : System κ R α) : Multiset κ :=
  ((system.clients ++ system.finished).map fun client => (client.taken : Multiset κ)).sum

def System.returned (system : System κ R α) : Multiset κ :=
  ((system.clients ++ system.finished).map fun client => (client.returned : Multiset κ)).sum

variable {system next : System κ R α} {connections : List κ} {events : List (Event κ R α)}

/-! ### What a step does -/

/-- **Inversion of an effect.** A client takes the front connection, puts one back, or does something
of its own. -/
theorem Client.advance_cases {client client' : Client κ R α} {idle idle' : List κ}
    {answer : (effect : E) → Option (R effect)}
    (hadvance : client.advance idle answer = some (idle', client')) :
    (∃ connection program, client.program = .call .getConnection program ∧
        idle = connection :: idle' ∧
        client' = ⟨client.taken ++ [connection], client.returned, program connection⟩) ∨
      (∃ connection program, client.program = .call (.returnConnection connection) program ∧
        idle' = idle ++ [connection] ∧
        client' = ⟨client.taken, client.returned ++ [connection], program ⟨⟩⟩) ∨
      ∃ effect program result, client.program = .call (.other effect) program ∧
        idle' = idle ∧ client' = ⟨client.taken, client.returned, program result⟩ := by
  unfold Client.advance at hadvance
  split at hadvance
  · exact absurd hadvance (by simp)
  · rename_i program hprogram
    cases idle with
    | nil => exact absurd hadvance (by simp)
    | cons connection rest =>
        simp only [Option.some.injEq, Prod.mk.injEq] at hadvance
        obtain ⟨rfl, rfl⟩ := hadvance
        exact .inl ⟨connection, program, hprogram, rfl, rfl⟩
  · rename_i connection program hprogram
    simp only [Option.some.injEq, Prod.mk.injEq] at hadvance
    obtain ⟨rfl, rfl⟩ := hadvance
    exact .inr (.inl ⟨connection, program, hprogram, rfl, rfl⟩)
  · rename_i effect program hprogram
    obtain ⟨result, -, heq⟩ := Option.map_eq_some_iff.mp hadvance
    simp only [Prod.mk.injEq] at heq
    obtain ⟨rfl, rfl⟩ := heq
    exact .inr (.inr ⟨effect, program, result, hprogram, rfl, rfl⟩)

/-- **Inversion of a step.** -/
theorem step_cases {event : Event κ R α} (hstep : step system event = some next) :
    (∃ program, event = .start program ∧
        next = ⟨system.idle, system.clients ++ [⟨[], [], program⟩], system.finished⟩) ∨
      (∃ before client after i answer idle client', event = .proceed i answer ∧
        system.clients = before ++ client :: after ∧
        client.advance system.idle answer = some (idle, client') ∧
        next = ⟨idle, before ++ client' :: after, system.finished⟩) ∨
      ∃ before client after i value, event = .finish i ∧
        system.clients = before ++ client :: after ∧ client.program = .ret value ∧
        next = ⟨system.idle, before ++ after, system.finished ++ [client]⟩ := by
  cases event with
  | start program =>
      rw [step, Option.some.injEq] at hstep
      exact .inl ⟨program, rfl, hstep.symm⟩
  | proceed i answer =>
      simp only [step, Option.bind_eq_some_iff, Option.map_eq_some_iff] at hstep
      obtain ⟨client, hclient, ⟨idle, client'⟩, hadvance, rfl⟩ := hstep
      obtain ⟨hi, hget⟩ := List.getElem?_eq_some_iff.mp hclient
      refine .inr (.inl ⟨system.clients.take i, client, system.clients.drop (i + 1), i, answer, idle,
        client', rfl, ?_, hadvance, ?_⟩)
      · rw [← hget, List.cons_getElem_drop_succ, List.take_append_drop]
      · rw [List.set_eq_take_append_cons_drop, if_pos hi]
  | finish i =>
      simp only [step, Option.bind_eq_some_iff] at hstep
      obtain ⟨client, hclient, hstep⟩ := hstep
      obtain ⟨hi, hget⟩ := List.getElem?_eq_some_iff.mp hclient
      split at hstep
      · rename_i value hprogram
        rw [Option.some.injEq] at hstep
        refine .inr (.inr ⟨system.clients.take i, client, system.clients.drop (i + 1), i, value, rfl,
          ?_, hprogram, ?_⟩)
        · rw [← hget, List.cons_getElem_drop_succ, List.take_append_drop]
        · rw [← hstep, List.eraseIdx_eq_take_drop_succ]
      · exact absurd hstep (by simp)

/-! ### Conservation -/

theorem taken_eq {idle : List κ} {finished before after : List (Client κ R α)}
    {client : Client κ R α} :
    System.taken ⟨idle, before ++ client :: after, finished⟩
      = client.taken + System.taken ⟨idle, before ++ after, finished⟩ := by
  simp only [System.taken, List.map_append, List.map_cons, List.sum_append, List.sum_cons]
  abel

theorem returned_eq {idle : List κ} {finished before after : List (Client κ R α)}
    {client : Client κ R α} :
    System.returned ⟨idle, before ++ client :: after, finished⟩
      = client.returned + System.returned ⟨idle, before ++ after, finished⟩ := by
  simp only [System.returned, List.map_append, List.map_cons, List.sum_append, List.sum_cons]
  abel

/-- Idle and taken connections are the first ones and the returned ones. -/
def Conserved (connections : List κ) (system : System κ R α) : Prop :=
  (system.idle : Multiset κ) + system.taken = connections + system.returned

/-- A connection goes from the idle ones to a client, or back. -/
theorem Conserved.step {event : Event κ R α} (hsystem : Conserved connections system)
    (hstep : step system event = some next) : Conserved connections next := by
  unfold Conserved at hsystem ⊢
  rcases step_cases hstep with ⟨program, -, rfl⟩ |
    ⟨before, client, after, i, answer, idle, client', -, hclients, hadvance, rfl⟩ |
    ⟨before, client, after, i, value, -, hclients, -, rfl⟩
  · simpa [System.taken, System.returned] using hsystem
  · obtain ⟨idle', clients, finished⟩ := system
    simp only at hclients hadvance
    subst hclients
    rw [taken_eq, returned_eq] at hsystem ⊢
    -- taking moves a connection from the left of the sum to its right, returning adds to both sides
    rcases client.advance_cases hadvance with ⟨connection, program, -, rfl, rfl⟩ |
      ⟨connection, program, -, rfl, rfl⟩ | ⟨effect, program, result, -, rfl, rfl⟩
    · calc (idle : Multiset κ) + (↑(client.taken ++ [connection])
              + System.taken ⟨idle, before ++ after, finished⟩)
          = ↑[connection] + ↑idle + (↑client.taken
              + System.taken ⟨connection :: idle, before ++ after, finished⟩) := by
            rw [← Multiset.coe_add]
            simp only [System.taken]
            abel
        _ = _ := hsystem
    · calc ((idle' ++ [connection] : List κ) : Multiset κ) + (↑client.taken
              + System.taken ⟨idle' ++ [connection], before ++ after, finished⟩)
          = ↑[connection] + (↑idle' + (↑client.taken
              + System.taken ⟨idle', before ++ after, finished⟩)) := by
            rw [← Multiset.coe_add]
            simp only [System.taken]
            abel
        _ = ↑[connection] + (↑connections + (↑client.returned
              + System.returned ⟨idle', before ++ after, finished⟩)) := by rw [hsystem]
        _ = _ := by
            rw [← Multiset.coe_add]
            simp only [System.returned]
            abel
    · exact hsystem
  · obtain ⟨idle, clients, finished⟩ := system
    simp only at hclients
    subst hclients
    rw [taken_eq, returned_eq] at hsystem
    simp only [System.taken, System.returned, List.map_append, List.map_cons, List.map_nil,
      List.sum_append, List.sum_cons, List.sum_nil, add_zero] at hsystem ⊢
    calc _ = _ := by abel
      _ = _ := hsystem
      _ = _ := by abel

/-- **Conservation.** In every run the idle and the taken connections are those the pool started with
and those that were put back. -/
theorem conserved_of_run (hrun : Machine.run step (start connections) events = some system) :
    Conserved connections system :=
  Machine.run_invariant (by simp [Conserved, start, System.taken, System.returned])
    (fun _ _ _ hsystem hstep => hsystem.step hstep) hrun

/-- **A pool that is whole.** When every client has put back what it took, the idle connections are
the first ones. -/
theorem idle_perm_of_run (hrun : Machine.run step (start connections) events = some system)
    (hbalanced : ∀ client ∈ system.clients ++ system.finished, client.returned.Perm client.taken) :
    system.idle.Perm connections := by
  have hsame : system.returned = system.taken := by
    unfold System.returned System.taken
    congr 1
    exact List.map_congr_left fun client hclient => Multiset.coe_eq_coe.mpr (hbalanced client hclient)
  have hconserved := conserved_of_run hrun
  rw [Conserved, hsame] at hconserved
  exact Multiset.coe_eq_coe.mp (add_right_cancel hconserved)

/-! ### Clients that have finished -/

theorem finished_eq_nil_iff_of_run
    (hrun : Machine.run step (start connections) events = some system) :
    system.finished = [] ↔ ∀ i, .finish i ∉ events := by
  refine Machine.run_history (P := fun events system =>
    system.finished = [] ↔ ∀ i, Event.finish i ∉ events) (by simp [start]) ?_ hrun
  intro events state event next hstate hstep
  have hconcat : (∀ i, Event.finish i ∉ events ++ [event]) ↔
      state.finished = [] ∧ ∀ i, event ≠ .finish i := by
    rw [hstate, ← forall_and]
    refine forall_congr' fun i => ?_
    rw [List.mem_append, List.mem_singleton, not_or, ne_comm]
  rw [hconcat]
  rcases step_cases hstep with ⟨program, rfl, rfl⟩ |
    ⟨before, client, after, i, answer, idle, client', rfl, -, -, rfl⟩ |
    ⟨before, client, after, i, value, rfl, -, -, rfl⟩
  · simp
  · simp
  · simp

/-! ### Clients that keep what they take -/

/-- A program that takes one connection and never puts one back. -/
def Keeps : PoolProgram κ R α → Prop
  | .call .getConnection next => ∀ connection, (next connection).Avoids Touches
  | _ => False

/-- A client that runs such a program: it has not begun, or it has its one connection for good. -/
inductive Client.Keeping (client : Client κ R α) : Prop where
  | before (htaken : client.taken = []) (hreturned : client.returned = [])
      (hprogram : Keeps client.program)
  | after (connection : κ) (htaken : client.taken = [connection]) (hreturned : client.returned = [])
      (hprogram : client.program.Avoids Touches)

theorem Client.Keeping.advance {client client' : Client κ R α} {idle idle' : List κ}
    {answer : (effect : E) → Option (R effect)} (hclient : client.Keeping)
    (hadvance : client.advance idle answer = some (idle', client')) : client'.Keeping := by
  rcases client.advance_cases hadvance with ⟨connection, program, heq, -, rfl⟩ |
    ⟨connection, program, heq, -, rfl⟩ | ⟨effect, program, result, heq, -, rfl⟩
  · cases hclient with
    | before htaken hreturned hprogram =>
        rw [heq] at hprogram
        exact .after connection (by simp [htaken]) hreturned (hprogram connection)
    | after other htaken hreturned hprogram =>
        rw [heq, Program.avoids_call] at hprogram
        exact absurd trivial hprogram.1
  · cases hclient with
    | before htaken hreturned hprogram =>
        rw [heq] at hprogram
        exact absurd hprogram (by simp [Keeps])
    | after other htaken hreturned hprogram =>
        rw [heq, Program.avoids_call] at hprogram
        exact absurd trivial hprogram.1
  · cases hclient with
    | before htaken hreturned hprogram =>
        rw [heq] at hprogram
        exact absurd hprogram (by simp [Keeps])
    | after other htaken hreturned hprogram =>
        rw [heq, Program.avoids_call] at hprogram
        exact .after other htaken hreturned (hprogram.2 result)

/-- Every client keeps what it takes, and every one that has finished has kept one connection. -/
structure Keeping (system : System κ R α) : Prop where
  clients : ∀ client ∈ system.clients, client.Keeping
  finished : ∀ client ∈ system.finished, client.taken.length = 1 ∧ client.returned = []

/-- A client with its connection asks for no other, and gives it back to nobody. -/
theorem Keeping.step {event : Event κ R α} (hsystem : Keeping system)
    (hevent : ∀ program, event = .start program → Keeps program)
    (hstep : step system event = some next) : Keeping next := by
  rcases step_cases hstep with ⟨program, heq, rfl⟩ |
    ⟨before, client, after, i, answer, idle, client', -, hclients, hadvance, rfl⟩ |
    ⟨before, client, after, i, value, -, hclients, hprogram, rfl⟩
  · refine ⟨fun client hclient => ?_, hsystem.finished⟩
    rcases List.mem_append.mp hclient with hold | hnew
    · exact hsystem.clients client hold
    · rw [List.mem_singleton.mp hnew]
      exact .before rfl rfl (hevent program heq)
  · have hold := hsystem.clients
    rw [hclients] at hold
    refine ⟨fun other hother => ?_, hsystem.finished⟩
    rcases List.mem_append.mp hother with hbefore | hafter
    · exact hold other (List.mem_append_left _ hbefore)
    · rcases List.mem_cons.mp hafter with rfl | hafter
      · exact (hold client (by simp)).advance hadvance
      · exact hold other (List.mem_append_right _ (List.mem_cons_of_mem _ hafter))
  · have hold := hsystem.clients
    rw [hclients] at hold
    refine ⟨fun other hother => hold other ?_, fun other hother => ?_⟩
    · rcases List.mem_append.mp hother with hbefore | hafter
      · exact List.mem_append_left _ hbefore
      · exact List.mem_append_right _ (List.mem_cons_of_mem _ hafter)
    · rcases List.mem_append.mp hother with hdone | hnew
      · exact hsystem.finished other hdone
      · rw [List.mem_singleton.mp hnew]
        cases hold client (by simp) with
        | before _ _ hkeeps =>
            rw [hprogram] at hkeeps
            exact absurd hkeeps (by simp [Keeps])
        | after connection htaken hreturned _ => exact ⟨by simp [htaken], hreturned⟩

theorem keeping_of_run (hevents : ∀ program, .start program ∈ events → Keeps program)
    (hrun : Machine.run step (start connections) events = some system) : Keeping system := by
  refine Machine.run_history (P := fun events system =>
      (∀ program, Event.start program ∈ events → Keeps program) → Keeping system)
    (fun _ => ⟨by simp [start], by simp [start]⟩) ?_ hrun hevents
  intro events state event next hstate hstep hevents
  refine (hstate fun program hmem => hevents program (List.mem_append_left _ hmem)).step
    (fun program heq => hevents program ?_) hstep
  rw [heq]
  exact List.mem_append_right _ (List.mem_singleton_self _)

theorem card_sum_map {clients : List (Client κ R α)} {f : Client κ R α → List κ} {n : Nat}
    (hclients : ∀ client ∈ clients, (f client).length = n) :
    Multiset.card (clients.map fun client => (f client : Multiset κ)).sum = clients.length * n := by
  induction clients with
  | nil => simp
  | cons client clients ih =>
      rw [List.map_cons, List.sum_cons, Multiset.card_add, Multiset.coe_card,
        hclients client List.mem_cons_self,
        ih fun other hother => hclients other (List.mem_cons_of_mem _ hother), List.length_cons]
      ring

/-- **A pool that runs dry.** When every client keeps what it takes and none is running, each client
that has finished has cost the pool one connection. -/
theorem idle_add_finished (hevents : ∀ program, .start program ∈ events → Keeps program)
    (hrun : Machine.run step (start connections) events = some system)
    (hclients : system.clients = []) :
    system.idle.length + system.finished.length = connections.length := by
  have hkeeping := keeping_of_run hevents hrun
  have hconserved := congrArg Multiset.card (conserved_of_run hrun)
  have htaken := card_sum_map fun client hmem => (hkeeping.finished client hmem).1
  have hreturned := card_sum_map fun client hmem =>
    congrArg List.length (hkeeping.finished client hmem).2
  simp only [System.taken, System.returned, hclients, List.nil_append, Multiset.card_add,
    Multiset.coe_card, htaken, hreturned] at hconserved
  rw [List.length_nil] at hconserved
  omega

end Pool
