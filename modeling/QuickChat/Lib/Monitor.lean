import QuickChat.Lib.Pool

/-!
# A pool behind a mutex and a condition variable

Calls of the operations `ω` share a pool. A call that asks for a connection tests the queue under the
mutex, and blocks in the same step if it is empty; one that puts a connection back notifies under the
mutex, which wakes one blocked call if there is any. A woken call tests the queue again when it gets
the mutex, and until then another call can take the connection that it was woken for.

Forgetting who is blocked gives a run of the clients of a pool, so connections are conserved here too.
What is particular to waiting is that no wake-up is lost: as long as a call is blocked, there are at
least as many woken calls as idle connections.
-/

universe u

namespace Monitor

variable {ω κ E α : Type u} {R : E → Type u}

abbrev Trace (κ : Type u) {E : Type u} (R : E → Type u) :=
  List ((effect : PoolEffect κ E) × effect.Answer R)

inductive Status (κ : Type u) {E : Type u} (R : E → Type u) (α : Type u) where
  | ready (program : PoolProgram κ R α)
  /-- waiting, in `getConnection` -/
  | blocked (next : κ → PoolProgram κ R α)
  /-- woken, and about to test the queue again -/
  | woken (next : κ → PoolProgram κ R α)

def Status.program : Status κ R α → PoolProgram κ R α
  | ready program => program
  | blocked next => .call .getConnection next
  | woken next => .call .getConnection next

structure Call (ω κ : Type u) {E : Type u} (R : E → Type u) (α : Type u) where
  op : ω
  trace : Trace κ R
  status : Status κ R α

structure System (ω κ : Type u) {E : Type u} (R : E → Type u) (α : Type u) where
  idle : List κ
  running : List (Call ω κ R α)
  finished : List (Call ω κ R α)

inductive Event (ω κ : Type u) {E : Type u} (R : E → Type u) where
  | start (op : ω)
  /-- a running call takes its next step; `wake` is the call that it wakes, if it wakes one -/
  | proceed (call : Nat) (answer : (effect : E) → Option (R effect)) (wake : Nat)
  /-- a blocked call wakes up for no reason -/
  | spurious (call : Nat)
  | finish (call : Nat)

namespace Call

def Blocked (call : Call ω κ R α) : Prop := call.status matches .blocked _

def Woken (call : Call ω κ R α) : Prop := call.status matches .woken _

instance (call : Call ω κ R α) : Decidable call.Blocked := inferInstanceAs (Decidable (_ = true))

instance (call : Call ω κ R α) : Decidable call.Woken := inferInstanceAs (Decidable (_ = true))

def wake (call : Call ω κ R α) : Option (Call ω κ R α) :=
  match call.status with
  | .blocked next => some { call with status := .woken next }
  | _ => none

def perform (call : Call ω κ R α) (effect : PoolEffect κ E) (answer : effect.Answer R)
    (program : PoolProgram κ R α) : Call ω κ R α :=
  ⟨call.op, call.trace ++ [⟨effect, answer⟩], .ready program⟩

end Call

def notify (calls : List (Call ω κ R α)) (wake : Nat) : Option (List (Call ω κ R α)) :=
  if ∀ call ∈ calls, ¬ call.Blocked then some calls
  else (calls[wake]?.bind Call.wake).map fun call => calls.set wake call

/-- The test of the queue, with the mutex held. -/
def enter (system : System ω κ R α) (i : Nat) (call : Call ω κ R α)
    (next : κ → PoolProgram κ R α) : System ω κ R α :=
  match system.idle with
  | [] => { system with running := system.running.set i { call with status := .blocked next } }
  | connection :: idle =>
      { system with
        idle := idle
        running := system.running.set i (call.perform .getConnection connection (next connection)) }

def step (programs : ω → PoolProgram κ R α) (system : System ω κ R α) :
    Event ω κ R → Option (System ω κ R α)
  | .start op =>
      some { system with running := system.running ++ [⟨op, [], .ready (programs op)⟩] }
  | .proceed i answer wake =>
      system.running[i]?.bind fun call =>
        match call.status with
        | .blocked _ => none
        | .woken next => some (enter system i call next)
        | .ready (.ret _) => none
        | .ready (.call .getConnection next) => some (enter system i call next)
        | .ready (.call (.returnConnection connection) next) =>
            (notify (system.running.set i
              (call.perform (.returnConnection connection) ⟨⟩ (next ⟨⟩))) wake).map fun running =>
                { system with idle := system.idle ++ [connection], running := running }
        | .ready (.call (.other effect) next) =>
            (answer effect).map fun result =>
              { system with
                running := system.running.set i (call.perform (.other effect) result (next result)) }
  | .spurious i =>
      (system.running[i]?.bind Call.wake).map fun call =>
        { system with running := system.running.set i call }
  | .finish i =>
      system.running[i]?.bind fun call =>
        match call.status with
        | .ready (.ret _) =>
            some { system with
              running := system.running.eraseIdx i, finished := system.finished ++ [call] }
        | _ => none

def start (connections : List κ) : System ω κ R α := ⟨connections, [], []⟩

variable {programs : ω → PoolProgram κ R α} {system next : System ω κ R α}
  {event : Event ω κ R} {events : List (Event ω κ R)} {connections : List κ}

/-! ### What a step does -/

inductive Steps (programs : ω → PoolProgram κ R α) (system : System ω κ R α) :
    System ω κ R α → Prop where
  | start (op : ω) :
      Steps programs system ⟨system.idle,
        system.running ++ [⟨op, [], .ready (programs op)⟩], system.finished⟩
  | take (before after : List (Call ω κ R α)) (call : Call ω κ R α) (connection : κ)
      (rest : κ → PoolProgram κ R α) (idle : List κ)
      (hprogram : call.status.program = .call .getConnection rest) (hawake : ¬ call.Blocked)
      (hidle : system.idle = connection :: idle)
      (hrunning : system.running = before ++ call :: after) :
      Steps programs system ⟨idle, before ++
        call.perform .getConnection connection (rest connection) :: after, system.finished⟩
  | wait (before after : List (Call ω κ R α)) (call : Call ω κ R α) (rest : κ → PoolProgram κ R α)
      (hprogram : call.status.program = .call .getConnection rest) (hidle : system.idle = [])
      (hrunning : system.running = before ++ call :: after) :
      Steps programs system ⟨[], before ++ ⟨call.op, call.trace, .blocked rest⟩ :: after,
        system.finished⟩
  | give (before after running : List (Call ω κ R α)) (call : Call ω κ R α) (connection : κ)
      (rest : PUnit → PoolProgram κ R α) (wake : Nat)
      (hstatus : call.status = .ready (.call (.returnConnection connection) rest))
      (hrunning : system.running = before ++ call :: after)
      (hnotify : notify (before ++ call.perform (.returnConnection connection) ⟨⟩ (rest ⟨⟩) :: after)
        wake = some running) :
      Steps programs system ⟨system.idle ++ [connection], running, system.finished⟩
  | other (before after : List (Call ω κ R α)) (call : Call ω κ R α) (effect : E)
      (result : R effect) (rest : R effect → PoolProgram κ R α)
      (hstatus : call.status = .ready (.call (.other effect) rest))
      (hrunning : system.running = before ++ call :: after) :
      Steps programs system ⟨system.idle,
        before ++ call.perform (.other effect) result (rest result) :: after, system.finished⟩
  | spurious (before after : List (Call ω κ R α)) (call woken : Call ω κ R α)
      (hwake : call.wake = some woken) (hrunning : system.running = before ++ call :: after) :
      Steps programs system ⟨system.idle, before ++ woken :: after, system.finished⟩
  | finish (before after : List (Call ω κ R α)) (call : Call ω κ R α) (value : α)
      (hstatus : call.status = .ready (.ret value))
      (hrunning : system.running = before ++ call :: after) :
      Steps programs system ⟨system.idle, before ++ after, system.finished ++ [call]⟩

theorem getElem?_split {γ : Type u} {list : List γ} {i : Nat} {x : γ} (hget : list[i]? = some x) :
    ∃ before after, list = before ++ x :: after ∧ (∀ y, list.set i y = before ++ y :: after) ∧
      list.eraseIdx i = before ++ after := by
  obtain ⟨hi, hx⟩ := List.getElem?_eq_some_iff.mp hget
  refine ⟨list.take i, list.drop (i + 1), ?_, fun y => ?_, List.eraseIdx_eq_take_drop_succ _ _⟩
  · rw [← hx, List.cons_getElem_drop_succ, List.take_append_drop]
  · rw [List.set_eq_take_append_cons_drop, if_pos hi]

/-- A call that is awake and asks for a connection gets one, or falls asleep. -/
theorem steps_enter {i : Nat} {call : Call ω κ R α} {rest : κ → PoolProgram κ R α}
    (hget : system.running[i]? = some call)
    (hprogram : call.status.program = .call .getConnection rest) (hawake : ¬ call.Blocked) :
    Steps programs system (enter system i call rest) := by
  obtain ⟨before, after, hrunning, hset, -⟩ := getElem?_split hget
  unfold enter
  split
  · rename_i hidle
    rw [hset, hidle]
    exact .wait before after call rest hprogram hidle hrunning
  · rename_i connection idle hidle
    rw [hset]
    exact .take before after call connection rest idle hprogram hawake hidle hrunning

/-- **Inversion of a step.** Every later fact about a step is derived from these cases. -/
theorem steps_of_step (hstep : step programs system event = some next) :
    Steps programs system next := by
  cases event with
  | start op =>
      rw [step, Option.some.injEq] at hstep
      exact hstep ▸ .start op
  | proceed i answer wake =>
      obtain ⟨call, hget, hstep⟩ := Option.bind_eq_some_iff.mp hstep
      obtain ⟨before, after, hrunning, hset, -⟩ := getElem?_split hget
      split at hstep
      · exact absurd hstep (by simp)
      · rename_i rest hstatus
        exact Option.some.inj hstep ▸ steps_enter hget (by rw [hstatus]; rfl)
          (by simp [Call.Blocked, hstatus])
      · exact absurd hstep (by simp)
      · rename_i rest hstatus
        exact Option.some.inj hstep ▸ steps_enter hget (by rw [hstatus]; rfl)
          (by simp [Call.Blocked, hstatus])
      · rename_i connection rest hstatus
        obtain ⟨running, hnotify, rfl⟩ := Option.map_eq_some_iff.mp hstep
        rw [hset] at hnotify
        exact .give before after running call connection rest wake hstatus hrunning hnotify
      · rename_i effect rest hstatus
        obtain ⟨result, -, rfl⟩ := Option.map_eq_some_iff.mp hstep
        rw [hset]
        exact .other before after call effect result rest hstatus hrunning
  | spurious i =>
      obtain ⟨woken, hwake, rfl⟩ := Option.map_eq_some_iff.mp hstep
      obtain ⟨call, hget, hwake⟩ := Option.bind_eq_some_iff.mp hwake
      obtain ⟨before, after, hrunning, hset, -⟩ := getElem?_split hget
      rw [hset]
      exact .spurious before after call woken hwake hrunning
  | finish i =>
      obtain ⟨call, hget, hstep⟩ := Option.bind_eq_some_iff.mp hstep
      obtain ⟨before, after, hrunning, -, herase⟩ := getElem?_split hget
      split at hstep
      · rename_i value hstatus
        rw [herase] at hstep
        exact Option.some.inj hstep ▸ .finish before after call value hstatus hrunning
      · exact absurd hstep (by simp)

theorem wake_eq_some {call woken : Call ω κ R α} :
    call.wake = some woken ↔
      ∃ rest, call.status = .blocked rest ∧ woken = ⟨call.op, call.trace, .woken rest⟩ := by
  unfold Call.wake
  split
  · rename_i rest hstatus
    simp [hstatus, eq_comm]
  · rename_i hstatus
    simpa using fun rest hblocked => absurd hblocked (hstatus rest)

/-- A notification finds nobody blocked, or wakes one of those that are. -/
theorem notify_cases {calls running : List (Call ω κ R α)} {wake : Nat}
    (hnotify : notify calls wake = some running) :
    ((∀ call ∈ calls, ¬ call.Blocked) ∧ running = calls) ∨
      ∃ before after call woken, calls = before ++ call :: after ∧ call.wake = some woken ∧
        running = before ++ woken :: after := by
  unfold notify at hnotify
  split at hnotify
  · rename_i hnone
    exact .inl ⟨hnone, (Option.some.inj hnotify).symm⟩
  · obtain ⟨woken, hwake, rfl⟩ := Option.map_eq_some_iff.mp hnotify
    obtain ⟨call, hget, hwake⟩ := Option.bind_eq_some_iff.mp hwake
    obtain ⟨before, after, hcalls, hset, -⟩ := getElem?_split hget
    exact .inr ⟨before, after, call, woken, hcalls, hwake, hset woken⟩

/-! ### The clients of the pool -/

def taken : Trace κ R → List κ
  | [] => []
  | ⟨.getConnection, connection⟩ :: trace => connection :: taken trace
  | ⟨.returnConnection _, _⟩ :: trace => taken trace
  | ⟨.other _, _⟩ :: trace => taken trace

def returned : Trace κ R → List κ
  | [] => []
  | ⟨.getConnection, _⟩ :: trace => returned trace
  | ⟨.returnConnection connection, _⟩ :: trace => connection :: returned trace
  | ⟨.other _, _⟩ :: trace => returned trace

theorem taken_append (first second : Trace κ R) :
    taken (first ++ second) = taken first ++ taken second := by
  induction first with
  | nil => rfl
  | cons entry rest ih =>
      obtain ⟨effect, answer⟩ := entry
      cases effect with
      | getConnection => exact congrArg (List.cons answer) ih
      | returnConnection connection => exact ih
      | other effect => exact ih

theorem returned_append (first second : Trace κ R) :
    returned (first ++ second) = returned first ++ returned second := by
  induction first with
  | nil => rfl
  | cons entry rest ih =>
      obtain ⟨effect, answer⟩ := entry
      cases effect with
      | getConnection => exact ih
      | returnConnection connection => exact congrArg (List.cons connection) ih
      | other effect => exact ih

/-- What a call has taken and not put back, if it puts back what it took in the order in which it took
it. -/
def held (trace : Trace κ R) : List κ := (taken trace).drop (returned trace).length

def Call.client (call : Call ω κ R α) : Pool.Client κ R α :=
  ⟨taken call.trace, returned call.trace, call.status.program⟩

def System.pool (system : System ω κ R α) : Pool.System κ R α :=
  ⟨system.idle, system.running.map Call.client, system.finished.map Call.client⟩

theorem client_of_wake {call woken : Call ω κ R α} (hwake : call.wake = some woken) :
    woken.client = call.client := by
  obtain ⟨rest, hstatus, rfl⟩ := wake_eq_some.mp hwake
  simp only [Call.client, hstatus, Status.program]

theorem map_client_of_notify {calls running : List (Call ω κ R α)} {wake : Nat}
    (hnotify : notify calls wake = some running) :
    running.map Call.client = calls.map Call.client := by
  rcases notify_cases hnotify with ⟨-, rfl⟩ | ⟨before, after, call, woken, rfl, hwake, rfl⟩
  · rfl
  · simp only [List.map_append, List.map_cons, client_of_wake hwake]

theorem pool_proceed {idle idle' : List κ} {before after finished : List (Pool.Client κ R α)}
    {client client' : Pool.Client κ R α} {answer : (effect : E) → Option (R effect)}
    (hadvance : client.advance idle answer = some (idle', client')) :
    Pool.step ⟨idle, before ++ client :: after, finished⟩ (.proceed before.length answer)
      = some ⟨idle', before ++ client' :: after, finished⟩ := by
  simp [Pool.step, hadvance]

/-- A step is one of the clients of the pool, or one that they do not notice. -/
theorem Steps.pool (hsteps : Steps programs system next) :
    next.pool = system.pool ∨ ∃ event, Pool.step system.pool event = some next.pool := by
  classical
  obtain ⟨idle, running, finished⟩ := system
  cases hsteps with
  | start op =>
      refine .inr ⟨.start (programs op), ?_⟩
      simp [Pool.step, System.pool, Call.client, taken, returned, Status.program]
  | take before after call connection rest idle' hprogram hawake hidle hrunning =>
      simp only at hidle hrunning
      refine .inr ⟨.proceed (before.map Call.client).length fun _ => none, ?_⟩
      simp only [System.pool, hidle, hrunning, List.map_append, List.map_cons]
      refine pool_proceed ?_
      simp only [Pool.Client.advance, Call.client, hprogram]
      simp [Call.perform, taken_append, returned_append, taken, returned, Status.program]
  | wait before after call rest hprogram hidle hrunning =>
      simp only at hidle hrunning
      left
      simp only [System.pool, hidle, hrunning, List.map_append, List.map_cons, Call.client, hprogram]
      rfl
  | give before after running' call connection rest wake hstatus hrunning hnotify =>
      simp only at hrunning
      refine .inr ⟨.proceed (before.map Call.client).length fun _ => none, ?_⟩
      simp only [System.pool, hrunning, map_client_of_notify hnotify, List.map_append, List.map_cons]
      refine pool_proceed ?_
      simp [Pool.Client.advance, Call.client, Call.perform, hstatus, taken_append, returned_append,
        taken, returned, Status.program]
  | other before after call effect result rest hstatus hrunning =>
      simp only at hrunning
      refine .inr ⟨.proceed (before.map Call.client).length
        (Function.update (fun _ => none) effect (some result)), ?_⟩
      simp only [System.pool, hrunning, List.map_append, List.map_cons]
      refine pool_proceed ?_
      simp only [Pool.Client.advance, Call.client, hstatus, Status.program, Function.update_self]
      simp only [Call.perform, taken_append, returned_append, taken, returned, List.append_nil]
      rfl
  | spurious before after call woken hwake hrunning =>
      simp only at hrunning
      left
      simp only [System.pool, hrunning, List.map_append, List.map_cons, client_of_wake hwake]
  | finish before after call value hstatus hrunning =>
      simp only at hrunning
      refine .inr ⟨.finish (before.map Call.client).length, ?_⟩
      simp [Pool.step, System.pool, hrunning, Call.client, hstatus, Status.program,
        List.eraseIdx_append_of_length_le]

/-- **The clients of the pool.** Every run is one of the clients of the pool. -/
theorem pool_run (hrun : Machine.run (step programs) (start connections) events = some system) :
    ∃ events, Machine.run Pool.step (Pool.start connections) events = some system.pool := by
  refine Machine.run_invariant (P := fun system : System ω κ R α =>
    ∃ events, Machine.run Pool.step (Pool.start connections) events = some system.pool)
    ⟨[], rfl⟩ ?_ hrun
  rintro state event next ⟨events, hevents⟩ hstep
  rcases (steps_of_step hstep).pool with heq | ⟨event, hpool⟩
  · exact ⟨events, heq ▸ hevents⟩
  · exact ⟨events ++ [event], Machine.run_concat_eq_some.mpr ⟨_, hevents, hpool⟩⟩

theorem coe_flatMap {γ δ : Type u} (list : List γ) (f : γ → List δ) :
    (list.flatMap f : Multiset δ) = (list.map fun x => (f x : Multiset δ)).sum := by
  induction list with
  | nil => rfl
  | cons x list ih =>
      rw [List.flatMap_cons, ← Multiset.coe_add, ih, List.map_cons, List.sum_cons]

/-- **Where the connections are.** As long as every call puts back what it took, in that order, the
connections are the idle ones and those that the calls hold. -/
theorem idle_held_perm (hrun : Machine.run (step programs) (start connections) events = some system)
    (hreturns : ∀ call ∈ system.running ++ system.finished, returned call.trace <+: taken call.trace) :
    (system.idle ++ (system.running ++ system.finished).flatMap fun call => held call.trace).Perm
      connections := by
  obtain ⟨poolEvents, hpool⟩ := pool_run hrun
  have hconserved := Pool.conserved_of_run hpool
  have hcall : ∀ call ∈ system.running ++ system.finished,
      (taken call.trace : Multiset κ) = returned call.trace + held call.trace := by
    intro call hmem
    obtain ⟨rest, hrest⟩ := hreturns call hmem
    rw [held, ← hrest, List.drop_left, Multiset.coe_add]
  have htaken : system.pool.taken = system.pool.returned +
      ((system.running ++ system.finished).map fun call => (held call.trace : Multiset κ)).sum := by
    rw [Pool.System.taken, Pool.System.returned, System.pool, ← List.map_append, List.map_map,
      List.map_map, ← List.sum_map_add]
    exact congrArg List.sum (List.map_congr_left hcall)
  rw [Pool.Conserved, htaken, System.pool] at hconserved
  refine Multiset.coe_eq_coe.mp ?_
  rw [← Multiset.coe_add, coe_flatMap]
  refine add_right_cancel (b := system.pool.returned) ?_
  calc _ = (system.idle : Multiset κ) + (system.pool.returned +
          ((system.running ++ system.finished).map fun call => (held call.trace : Multiset κ)).sum) := by
        abel
    _ = _ := hconserved

/-- A pool whose calls have all finished, holding nothing, is whole. -/
theorem idle_perm_of_quiet (hrun : Machine.run (step programs) (start connections) events = some system)
    (hreturns : ∀ call ∈ system.running ++ system.finished, returned call.trace <+: taken call.trace)
    (hquiet : system.running = []) (hfinished : ∀ call ∈ system.finished, held call.trace = []) :
    system.idle.Perm connections := by
  have hperm := idle_held_perm hrun hreturns
  have hheld : system.finished.flatMap (fun call => held call.trace) = [] :=
    List.flatMap_eq_nil_iff.mpr hfinished
  rwa [hquiet, List.nil_append, hheld, List.append_nil] at hperm

/-- **One holder.** When the connections are distinct, what a running call holds is neither idle nor
held by another one. -/
theorem held_unique (hconnections : connections.Nodup)
    (hrun : Machine.run (step programs) (start connections) events = some system)
    (hreturns : ∀ call ∈ system.running ++ system.finished, returned call.trace <+: taken call.trace)
    {before after : List (Call ω κ R α)} {call : Call ω κ R α}
    (hsplit : system.running = before ++ call :: after) {connection : κ}
    (hheld : connection ∈ held call.trace) :
    connection ∉ system.idle ∧ ∀ other ∈ before ++ after, connection ∉ held other.trace := by
  have hnodup := (idle_held_perm hrun hreturns).nodup_iff.mpr hconnections
  rw [List.flatMap_append, ← List.append_assoc] at hnodup
  -- the calls that have finished are left out
  have hnodup := (List.nodup_append.mp hnodup).1
  rw [hsplit, List.flatMap_append, List.flatMap_cons] at hnodup
  have hperm : (system.idle ++ (before.flatMap (fun call => held call.trace) ++
      (held call.trace ++ after.flatMap fun call => held call.trace))).Perm
      (held call.trace ++ (system.idle ++ (before ++ after).flatMap fun call => held call.trace)) := by
    rw [List.flatMap_append]
    refine (List.Perm.append_left _ (List.perm_append_comm_assoc _ _ _)).trans ?_
    exact List.perm_append_comm_assoc _ _ _
  have hdisjoint := List.disjoint_of_nodup_append (hperm.nodup_iff.mp hnodup)
  refine ⟨fun hidle => hdisjoint hheld (List.mem_append_left _ hidle), fun other hother hmem => ?_⟩
  exact hdisjoint hheld (List.mem_append_right _ (List.mem_flatMap.mpr ⟨other, hother, hmem⟩))

/-! ### Watching the calls -/

section Watch

variable {σ : Type*} (observe : σ → (effect : PoolEffect κ E) → effect.Answer R → σ) (init : σ)
  (Good : κ → Prop) (P : ω → σ → Prop) (Q : ω → σ → α → Prop)

def usage (trace : Trace κ R) : σ :=
  trace.foldl (fun state entry => observe state entry.1 entry.2) init

theorem usage_concat (trace : Trace κ R) (effect : PoolEffect κ E) (answer : effect.Answer R) :
    usage observe init (trace ++ [⟨effect, answer⟩])
      = observe (usage observe init trace) effect answer := by
  rw [usage, List.foldl_concat]
  rfl

theorem usage_perform (call : Call ω κ R α) (effect : PoolEffect κ E) (answer : effect.Answer R)
    (program : PoolProgram κ R α) :
    usage observe init (call.perform effect answer program).trace
      = observe (usage observe init call.trace) effect answer :=
  usage_concat observe init call.trace effect answer

def Possible : (effect : PoolEffect κ E) → effect.Answer R → Prop
  | .getConnection, connection => Good connection
  | .returnConnection _, _ => True
  | .other _, _ => True

/-- The call keeps to what its operation is to do. -/
def Watched (call : Call ω κ R α) : Prop :=
  call.status.program.wp observe (Possible Good) (P call.op) (Q call.op)
    (usage observe init call.trace)

variable {observe init Good P Q}

theorem Watched.perform {call : Call ω κ R α} (hcall : Watched observe init Good P Q call)
    (effect : PoolEffect κ E) (answer : effect.Answer R)
    {rest : effect.Answer R → PoolProgram κ R α}
    (hprogram : call.status.program = .call effect rest) (hanswer : Possible Good effect answer) :
    Watched observe init Good P Q (call.perform effect answer (rest answer)) := by
  unfold Watched at hcall ⊢
  rw [hprogram, Program.wp_call] at hcall
  rw [Call.perform, usage_concat]
  exact hcall.2 answer hanswer

theorem Watched.wake {call woken : Call ω κ R α} (hcall : Watched observe init Good P Q call)
    (hwake : call.wake = some woken) : Watched observe init Good P Q woken := by
  obtain ⟨rest, hstatus, rfl⟩ := wake_eq_some.mp hwake
  rw [Watched, hstatus] at hcall
  exact hcall

/-- Idle connections are good, and every call keeps to its operation. -/
structure WatchedSystem (observe : σ → (effect : PoolEffect κ E) → effect.Answer R → σ) (init : σ)
    (Good : κ → Prop) (P : ω → σ → Prop) (Q : ω → σ → α → Prop) (system : System ω κ R α) :
    Prop where
  idle : ∀ connection ∈ system.idle, Good connection
  running : ∀ call ∈ system.running, Watched observe init Good P Q call
  finished : ∀ call ∈ system.finished, Watched observe init Good P Q call ∧
    ∃ value, call.status = .ready (.ret value)

theorem WatchedSystem.here (hsystem : WatchedSystem observe init Good P Q system) :
    ∀ call ∈ system.running ++ system.finished, P call.op (usage observe init call.trace) := by
  intro call hcall
  rcases List.mem_append.mp hcall with hrunning | hfinished
  · exact Program.wp_here (hsystem.running call hrunning)
  · exact Program.wp_here (hsystem.finished call hfinished).1

theorem WatchedSystem.over (hsystem : WatchedSystem observe init Good P Q system) :
    ∀ call ∈ system.finished, ∃ value, Q call.op (usage observe init call.trace) value := by
  intro call hcall
  obtain ⟨hwatched, value, hstatus⟩ := hsystem.finished call hcall
  rw [Watched, hstatus] at hwatched
  exact ⟨value, hwatched.2⟩

theorem forall_mem_split {γ : Type u} {p : γ → Prop} {before after : List γ} {x y : γ}
    (hold : ∀ z ∈ before ++ x :: after, p z) (hnew : p y) : ∀ z ∈ before ++ y :: after, p z := by
  simp only [List.forall_mem_append, List.forall_mem_cons] at hold ⊢
  exact ⟨hold.1, hnew, hold.2.2⟩

/-- A connection changes hands through the pool only, so it is good for whoever gets it next. -/
theorem WatchedSystem.steps
    (hprograms : ∀ op, (programs op).wp observe (Possible Good) (P op) (Q op) init)
    (hreturn : ∀ op state connection, P op (observe state (.returnConnection connection) ⟨⟩) →
      Good connection)
    (hsystem : WatchedSystem observe init Good P Q system) (hsteps : Steps programs system next) :
    WatchedSystem observe init Good P Q next := by
  obtain ⟨hidle, hrunning, hfinished⟩ := hsystem
  have hmem {before after : List (Call ω κ R α)} {call : Call ω κ R α}
      (hsplit : system.running = before ++ call :: after) : Watched observe init Good P Q call :=
    hrunning call (hsplit ▸ List.mem_append_right _ List.mem_cons_self)
  cases hsteps with
  | start op =>
      refine ⟨hidle, List.forall_mem_append.mpr ⟨hrunning, ?_⟩, hfinished⟩
      exact List.forall_mem_singleton.mpr (hprograms op)
  | take before after call connection rest idle hprogram hawake hqueue hsplit =>
      rw [hqueue, List.forall_mem_cons] at hidle
      refine ⟨hidle.2, forall_mem_split (hsplit ▸ hrunning) ?_, hfinished⟩
      exact (hmem hsplit).perform .getConnection connection hprogram hidle.1
  | wait before after call rest hprogram hqueue hsplit =>
      refine ⟨by simp, forall_mem_split (hsplit ▸ hrunning) ?_, hfinished⟩
      have hcall := hmem hsplit
      rw [Watched, hprogram] at hcall
      exact hcall
  | give before after running call connection rest wake hstatus hsplit hnotify =>
      have hcall := (hmem hsplit).perform (.returnConnection connection) ⟨⟩
        (show call.status.program = .call (.returnConnection connection) rest by rw [hstatus]; rfl)
        trivial
      have hcalls := forall_mem_split (hsplit ▸ hrunning) hcall
      refine ⟨List.forall_mem_append.mpr ⟨hidle, List.forall_mem_singleton.mpr ?_⟩, ?_, hfinished⟩
      · have hhere := Program.wp_here hcall
        rw [usage_perform observe init call (.returnConnection connection) ⟨⟩] at hhere
        exact hreturn _ _ _ hhere
      · rcases notify_cases hnotify with ⟨-, rfl⟩ | ⟨before, after, other, woken, heq, hwake, rfl⟩
        · exact hcalls
        · rw [heq] at hcalls
          exact forall_mem_split hcalls ((hcalls other (by simp)).wake hwake)
  | other before after call effect result rest hstatus hsplit =>
      refine ⟨hidle, forall_mem_split (hsplit ▸ hrunning) ?_, hfinished⟩
      exact (hmem hsplit).perform (.other effect) result
        (show call.status.program = .call (.other effect) rest by rw [hstatus]; rfl) trivial
  | spurious before after call woken hwake hsplit =>
      exact ⟨hidle, forall_mem_split (hsplit ▸ hrunning) ((hmem hsplit).wake hwake), hfinished⟩
  | finish before after call value hstatus hsplit =>
      have hcall := hmem hsplit
      rw [hsplit, List.forall_mem_append, List.forall_mem_cons] at hrunning
      refine ⟨hidle, List.forall_mem_append.mpr ⟨hrunning.1, hrunning.2.2⟩,
        List.forall_mem_append.mpr ⟨hfinished, List.forall_mem_singleton.mpr ?_⟩⟩
      exact ⟨hcall, value, hstatus⟩

/-- **Watching the calls.** When every operation keeps to its conditions, so does every call of a
run. -/
theorem watched_of_run
    (hprograms : ∀ op, (programs op).wp observe (Possible Good) (P op) (Q op) init)
    (hreturn : ∀ op state connection, P op (observe state (.returnConnection connection) ⟨⟩) →
      Good connection)
    (hconnections : ∀ connection ∈ connections, Good connection)
    (hrun : Machine.run (step programs) (start connections) events = some system) :
    WatchedSystem observe init Good P Q system :=
  Machine.run_invariant ⟨hconnections, by simp [start], by simp [start]⟩
    (fun _ _ _ hstate hstep => hstate.steps hprograms hreturn (steps_of_step hstep)) hrun

end Watch

/-! ### Wake-ups -/

def woken (calls : List (Call ω κ R α)) : Nat := calls.countP fun call => call.Woken

/-- While a call is blocked, there is a woken one for every idle connection. -/
def Awake (system : System ω κ R α) : Prop :=
  (∃ call ∈ system.running, call.Blocked) → system.idle.length ≤ woken system.running

theorem woken_split {before after : List (Call ω κ R α)} {call : Call ω κ R α} :
    woken (before ++ call :: after) = woken (before ++ after) + if call.Woken then 1 else 0 := by
  simp only [woken, List.countP_append, List.countP_cons, decide_eq_true_eq]
  omega

theorem exists_blocked_split {before after : List (Call ω κ R α)} {call : Call ω κ R α} :
    (∃ other ∈ before ++ call :: after, other.Blocked) ↔
      call.Blocked ∨ ∃ other ∈ before ++ after, other.Blocked := by
  simp only [List.mem_append, List.mem_cons, or_and_right, exists_or, exists_eq_left]
  exact or_left_comm

theorem Call.asleep_of_ready {call : Call ω κ R α} {program : PoolProgram κ R α}
    (hstatus : call.status = .ready program) : ¬ call.Blocked ∧ ¬ call.Woken := by
  simp [Blocked, Woken, hstatus]

theorem Call.asleep_perform (call : Call ω κ R α) (effect : PoolEffect κ E)
    (answer : effect.Answer R) (program : PoolProgram κ R α) :
    ¬ (call.perform effect answer program).Blocked ∧
      ¬ (call.perform effect answer program).Woken :=
  asleep_of_ready rfl

/-- Only a return makes a connection idle, and it wakes somebody; a call falls asleep only where none
is idle. -/
theorem Awake.steps (hsystem : Awake system) (hsteps : Steps programs system next) : Awake next := by
  unfold Awake at hsystem ⊢
  cases hsteps with
  | start op =>
      obtain ⟨hblocked, -⟩ := Call.asleep_of_ready
        (show (⟨op, [], .ready (programs op)⟩ : Call ω κ R α).status = .ready (programs op) from rfl)
      dsimp only
      rw [exists_blocked_split, woken_split, List.append_nil]
      intro hnext
      exact (hsystem (hnext.resolve_left hblocked)).trans (Nat.le_add_right _ _)
  | take before after call connection rest idle hprogram hawake hidle hrunning =>
      obtain ⟨hblocked, hwoken⟩ := call.asleep_perform .getConnection connection (rest connection)
      rw [hrunning, exists_blocked_split, woken_split, hidle, List.length_cons] at hsystem
      dsimp only
      rw [exists_blocked_split, woken_split, if_neg hwoken]
      intro hnext
      have hold := hsystem (.inr (hnext.resolve_left hblocked))
      split at hold <;> omega
  | wait before after call rest hprogram hidle hrunning =>
      intro _
      exact Nat.zero_le _
  | give before after running call connection rest wake hstatus hrunning hnotify =>
      obtain ⟨hblocked, hwoken⟩ := call.asleep_perform (.returnConnection connection) ⟨⟩ (rest ⟨⟩)
      rcases notify_cases hnotify with ⟨hnone, rfl⟩ | ⟨before', after', other, woke, heq, hwake, rfl⟩
      · rintro ⟨other, hmem, hother⟩
        exact absurd hother (hnone other hmem)
      · -- the call that is woken was blocked before, and one more is woken now
        obtain ⟨rest', hother, rfl⟩ := wake_eq_some.mp hwake
        have hexists : ∃ other ∈ before ++ after, other.Blocked := by
          have hmem : ∃ y ∈ before' ++ other :: after', y.Blocked :=
            ⟨other, by simp, by simp [Call.Blocked, hother]⟩
          rw [← heq, exists_blocked_split] at hmem
          exact hmem.resolve_left hblocked
        have hcount := congrArg woken heq
        have hasleep : ¬ other.Woken := by simp [Call.Woken, hother]
        rw [woken_split, woken_split, if_neg hwoken, if_neg hasleep] at hcount
        rw [hrunning, exists_blocked_split, woken_split,
          if_neg (Call.asleep_of_ready hstatus).2] at hsystem
        have hold := hsystem (.inr hexists)
        intro _
        dsimp only
        rw [woken_split, List.length_append, List.length_singleton, if_pos (by rfl)]
        omega
  | other before after call effect result rest hstatus hrunning =>
      obtain ⟨hblocked, hwoken⟩ := call.asleep_perform (.other effect) result (rest result)
      rw [hrunning, exists_blocked_split, woken_split,
        if_neg (Call.asleep_of_ready hstatus).2] at hsystem
      dsimp only
      rw [exists_blocked_split, woken_split, if_neg hwoken]
      intro hnext
      exact hsystem (.inr (hnext.resolve_left hblocked))
  | spurious before after call woke hwake hrunning =>
      obtain ⟨rest, hstatus, rfl⟩ := wake_eq_some.mp hwake
      have hasleep : ¬ call.Woken := by simp [Call.Woken, hstatus]
      rw [hrunning, exists_blocked_split, woken_split, if_neg hasleep] at hsystem
      have hold := hsystem (.inl (by simp [Call.Blocked, hstatus]))
      intro _
      dsimp only
      rw [woken_split]
      exact hold.trans (Nat.le_add_right _ _)
  | finish before after call value hstatus hrunning =>
      obtain ⟨-, hwoken⟩ := Call.asleep_of_ready hstatus
      rw [hrunning, exists_blocked_split, woken_split, if_neg hwoken] at hsystem
      intro hnext
      exact hsystem (.inr hnext)

/-- **No lost wake-up.** In every run, while a call is blocked there are at least as many woken calls
as idle connections. -/
theorem awake_of_run (hrun : Machine.run (step programs) (start connections) events = some system) :
    Awake system :=
  Machine.run_invariant (by simp [Awake, start])
    (fun _ _ _ hstate hstep => hstate.steps (steps_of_step hstep)) hrun

end Monitor
