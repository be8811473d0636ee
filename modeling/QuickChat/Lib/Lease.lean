import QuickChat.Lib.Monitor

/-!
# Calls that lease a connection

A program leases a connection when it takes one, works with it, and puts the same one back before it
returns, on every path and with no other business with the pool. Where every operation does so, each
connection is at every moment idle once or held by one call, and the pool is whole while no call is
running.
-/

universe u

namespace Monitor

open Pool

variable {ω κ E α : Type u} {R : E → Type u}

/-- The rest of a program that has the connection and has yet to put it back. -/
def Lends (connection : κ) : PoolProgram κ R α → Prop
  | .ret _ => False
  | .call .getConnection _ => False
  | .call (.returnConnection other) next => other = connection ∧ (next ⟨⟩).Avoids Touches
  | .call (.other _) next => ∀ answer, Lends connection (next answer)

def Leases : PoolProgram κ R α → Prop
  | .call .getConnection next => ∀ connection, Lends connection (next connection)
  | _ => False

/-- What has become of the connection by the end of a trace. -/
inductive Lease (trace : Trace κ R) : Prop where
  | before (htaken : taken trace = []) (hreturned : returned trace = [])
  | during (connection : κ) (htaken : taken trace = [connection]) (hreturned : returned trace = [])
  | after (connection : κ) (htaken : taken trace = [connection])
      (hreturned : returned trace = [connection])

def Over (trace : Trace κ R) : Prop :=
  ∃ connection, taken trace = [connection] ∧ returned trace = [connection]

def record (trace : Trace κ R) (effect : PoolEffect κ E) (answer : effect.Answer R) : Trace κ R :=
  trace ++ [⟨effect, answer⟩]

theorem usage_record (trace : Trace κ R) : usage record [] trace = trace := by
  induction trace using List.reverseRecOn with
  | nil => rfl
  | append_singleton trace entry ih => rw [usage_concat, ih, record]

variable {trace : Trace κ R} {program : PoolProgram κ R α} {connection : κ}

theorem taken_record (effect : PoolEffect κ E) (answer : effect.Answer R) :
    taken (record trace effect answer) = taken trace ++ taken [⟨effect, answer⟩] :=
  taken_append _ _

theorem returned_record (effect : PoolEffect κ E) (answer : effect.Answer R) :
    returned (record trace effect answer) = returned trace ++ returned [⟨effect, answer⟩] :=
  returned_append _ _

/-! ### The path of a program -/

/-- A program that touches the pool no more leaves a lease over. -/
theorem wp_of_avoids (hprogram : program.Avoids Touches) (hover : Over trace) :
    program.wp record (Possible fun _ => True) Lease (fun trace _ => Over trace) trace := by
  have hlease {trace : Trace κ R} (hover : Over trace) : Lease trace := by
    obtain ⟨connection, htaken, hreturned⟩ := hover
    exact .after connection htaken hreturned
  induction program generalizing trace with
  | ret value => exact ⟨hlease hover, hover⟩
  | call effect next ih =>
      refine ⟨hlease hover, fun answer _ => ih answer (hprogram.2 answer) ?_⟩
      obtain ⟨connection, htaken, hreturned⟩ := hover
      cases effect with
      | getConnection => exact absurd trivial hprogram.1
      | returnConnection other => exact absurd trivial hprogram.1
      | other effect =>
          refine ⟨connection, ?_, ?_⟩
          · rw [taken_record, htaken]
            rfl
          · rw [returned_record, hreturned]
            rfl

/-- By induction on the program: an effect of its own keeps the lease, the return ends it. -/
theorem wp_of_lends (hprogram : Lends connection program) (htaken : taken trace = [connection])
    (hreturned : returned trace = []) :
    program.wp record (Possible fun _ => True) Lease (fun trace _ => Over trace) trace := by
  induction program generalizing trace with
  | ret value => exact hprogram.elim
  | call effect next ih =>
      refine ⟨.during connection htaken hreturned, fun answer _ => ?_⟩
      cases effect with
      | getConnection => exact hprogram.elim
      | returnConnection other =>
          obtain ⟨rfl, havoids⟩ := hprogram
          refine wp_of_avoids havoids ⟨other, ?_, ?_⟩
          · rw [taken_record, htaken]
            rfl
          · rw [returned_record, hreturned]
            rfl
      | other effect =>
          refine ih answer (hprogram answer) ?_ ?_
          · rw [taken_record, htaken]
            rfl
          · rw [returned_record, hreturned]
            rfl

theorem wp_of_leases (hprogram : Leases program) :
    program.wp record (Possible fun _ => True) Lease (fun trace _ => Over trace) [] := by
  cases program with
  | ret value => exact hprogram.elim
  | call effect next =>
      cases effect with
      | getConnection =>
          exact ⟨.before rfl rfl, fun connection _ => wp_of_lends (hprogram connection) rfl rfl⟩
      | returnConnection other => exact hprogram.elim
      | other effect => exact hprogram.elim

/-! ### Runs -/

variable {programs : ω → PoolProgram κ R α} {system : System ω κ R α} {events : List (Event ω κ R)}
  {connections : List κ}

theorem watched_of_leases (hprograms : ∀ op, Leases (programs op))
    (hrun : Machine.run (step programs) (start connections) events = some system) :
    WatchedSystem record [] (fun _ => True) (fun _ => Lease) (fun _ trace _ => Over trace) system :=
  watched_of_run (fun op => wp_of_leases (hprograms op)) (fun _ _ _ _ => trivial)
    (fun _ _ => trivial) hrun

theorem lease_of_run (hprograms : ∀ op, Leases (programs op))
    (hrun : Machine.run (step programs) (start connections) events = some system) :
    ∀ call ∈ system.running ++ system.finished, Lease call.trace := by
  intro call hcall
  have hlease := (watched_of_leases hprograms hrun).here call hcall
  rwa [usage_record] at hlease

/-- **Leases end.** A call that has returned has put its connection back. -/
theorem over_of_run (hprograms : ∀ op, Leases (programs op))
    (hrun : Machine.run (step programs) (start connections) events = some system) :
    ∀ call ∈ system.finished, Over call.trace := by
  intro call hcall
  obtain ⟨-, hover⟩ := (watched_of_leases hprograms hrun).over call hcall
  rwa [usage_record] at hover

theorem Lease.returns (hlease : Lease trace) : returned trace <+: taken trace := by
  cases hlease with
  | before htaken hreturned => rw [htaken, hreturned]
  | during connection htaken hreturned => rw [htaken, hreturned]; exact List.nil_prefix
  | after connection htaken hreturned => rw [htaken, hreturned]

/-- A call under a lease never holds more than one connection. -/
theorem Lease.held_eq (hlease : Lease trace) (hheld : connection ∈ held trace) :
    held trace = [connection] := by
  unfold held at hheld ⊢
  cases hlease with
  | before htaken hreturned => simp [htaken] at hheld
  | during other htaken hreturned =>
      rw [htaken, hreturned] at hheld ⊢
      exact congrArg List.singleton (List.mem_singleton.mp hheld).symm
  | after other htaken hreturned => simp [htaken, hreturned] at hheld

theorem Over.held_eq (hover : Over trace) : held trace = [] := by
  obtain ⟨connection, htaken, hreturned⟩ := hover
  rw [held, htaken, hreturned]
  rfl

def Idle [DecidableEq κ] (system : System ω κ R α) (connection : κ) : Prop :=
  system.idle.count connection = 1 ∧ ∀ call ∈ system.running, connection ∉ held call.trace

def HeldOnce (system : System ω κ R α) (connection : κ) : Prop :=
  connection ∉ system.idle ∧ ∃ before call after, system.running = before ++ call :: after ∧
    held call.trace = [connection] ∧ ∀ other ∈ before ++ after, connection ∉ held other.trace

/-- **Idle or held.** Every connection is idle or held, once. -/
theorem idle_or_heldOnce [DecidableEq κ] (hprograms : ∀ op, Leases (programs op))
    (hconnections : connections.Nodup)
    (hrun : Machine.run (step programs) (start connections) events = some system)
    (hmem : connection ∈ connections) : Idle system connection ∨ HeldOnce system connection := by
  have hreturns := fun call hcall => (lease_of_run hprograms hrun call hcall).returns
  have hperm := idle_held_perm hrun hreturns
  by_cases hidle : connection ∈ system.idle
  · left
    have hnodup := (List.nodup_append.mp (hperm.nodup_iff.mpr hconnections)).1
    refine ⟨List.count_eq_one_of_mem hnodup hidle, fun call hcall hheld => ?_⟩
    obtain ⟨before, after, hsplit⟩ := List.append_of_mem hcall
    exact (held_unique hconnections hrun hreturns hsplit hheld).1 hidle
  · right
    obtain ⟨call, hcall, hheld⟩ := List.mem_flatMap.mp
      ((List.mem_append.mp (hperm.mem_iff.mpr hmem)).resolve_left hidle)
    have hrunning : call ∈ system.running := by
      refine (List.mem_append.mp hcall).resolve_right fun hfinished => ?_
      rw [(over_of_run hprograms hrun call hfinished).held_eq] at hheld
      exact absurd hheld List.not_mem_nil
    obtain ⟨before, after, hsplit⟩ := List.append_of_mem hrunning
    exact ⟨hidle, before, call, after, hsplit, (lease_of_run hprograms hrun call hcall).held_eq hheld,
      (held_unique hconnections hrun hreturns hsplit hheld).2⟩

/-- **A quiet pool is whole.** -/
theorem idle_perm_of_leases (hprograms : ∀ op, Leases (programs op))
    (hrun : Machine.run (step programs) (start connections) events = some system)
    (hquiet : system.running = []) : system.idle.Perm connections :=
  idle_perm_of_quiet hrun (fun call hcall => (lease_of_run hprograms hrun call hcall).returns) hquiet
    fun call hcall => (over_of_run hprograms hrun call hcall).held_eq

end Monitor
