import QuickChat.Lib.Monitor

/-!
# Connections that are spent

A program that puts nothing back spends what it takes. Where no call puts anything back, the idle
connections and what the calls have spent are all that the pool had. So a pool serves calls only as
long as what they spend together is no more than that.
-/

universe u

namespace Monitor

variable {ω κ E α β : Type u} {R : E → Type u}

def tally : Nat × Nat → (effect : PoolEffect κ E) → effect.Answer R → Nat × Nat
  | (taken, returned), .getConnection, _ => (taken + 1, returned)
  | (taken, returned), .returnConnection _, _ => (taken, returned + 1)
  | state, .other _, _ => state

theorem usage_tally (trace : Trace κ R) :
    usage tally (0, 0) trace = ((taken trace).length, (returned trace).length) := by
  induction trace using List.reverseRecOn with
  | nil => rfl
  | append_singleton trace entry ih =>
      obtain ⟨effect, answer⟩ := entry
      rw [usage_concat, ih, taken_append, returned_append, List.length_append, List.length_append]
      cases effect <;> rfl

/-- The program puts nothing back. By the time that it returns so many have been taken, and the
condition holds of them and of what it returns. -/
def Spends (Q : Nat → α → Prop) (program : PoolProgram κ R α) (taken : Nat) : Prop :=
  program.wp tally (Possible fun _ => True) (fun state => state.2 = 0)
    (fun state value => Q state.1 value) (taken, 0)

variable {Q Q' : Nat → α → Prop} {program : PoolProgram κ R α} {taken : Nat}

theorem spends_ret {value : α} (hvalue : Q taken value) :
    Spends Q (.ret value : PoolProgram κ R α) taken := ⟨rfl, hvalue⟩

theorem spends_bind {Q : Nat → β → Prop} {second : α → PoolProgram κ R β}
    (hprogram : Spends (fun taken value => Spends Q (second value) taken) program taken) :
    Spends Q (program >>= second) taken := by
  rw [Spends, Program.wp_bind]
  refine Program.wp_mono ?_ hprogram
  rintro ⟨taken, returned⟩ value hreturned hsecond
  obtain rfl : returned = 0 := hreturned
  exact hsecond

theorem Spends.mono (hprogram : Spends Q program taken)
    (hQ : ∀ taken value, Q taken value → Q' taken value) : Spends Q' program taken :=
  Program.wp_mono (fun state value _ => hQ state.1 value) hprogram

theorem spends_getConnection {Q : Nat → κ → Prop} (hanswer : ∀ connection, Q (taken + 1) connection) :
    Spends Q (Program.perform PoolEffect.getConnection : PoolProgram κ R κ) taken :=
  ⟨rfl, fun connection _ => ⟨rfl, hanswer connection⟩⟩

/-! ### Runs -/

variable {programs : ω → PoolProgram κ R α} {system : System ω κ R α} {events : List (Event ω κ R)}
  {connections : List κ} {cost : ω → Nat → α → Prop}

theorem watched_of_spends (hprograms : ∀ op, Spends (cost op) (programs op) 0)
    (hrun : Machine.run (step programs) (start connections) events = some system) :
    WatchedSystem tally (0, 0) (fun _ => True) (fun _ state => state.2 = 0)
      (fun op state value => cost op state.1 value) system :=
  watched_of_run hprograms (fun _ _ _ _ => trivial) (fun _ _ => trivial) hrun

def Call.spent (call : Call ω κ R α) : Nat := (Monitor.taken call.trace).length

theorem returned_of_spends (hprograms : ∀ op, Spends (cost op) (programs op) 0)
    (hrun : Machine.run (step programs) (start connections) events = some system) :
    ∀ call ∈ system.running ++ system.finished, returned call.trace = [] := by
  intro call hcall
  have hnone := (watched_of_spends hprograms hrun).here call hcall
  rw [usage_tally] at hnone
  exact List.length_eq_zero_iff.mp hnone

/-- A call that has returned has met its cost. -/
theorem cost_of_finished (hprograms : ∀ op, Spends (cost op) (programs op) 0)
    (hrun : Machine.run (step programs) (start connections) events = some system) :
    ∀ call ∈ system.finished, ∃ value, call.status = .ready (.ret value) ∧
      cost call.op call.spent value := by
  intro call hcall
  obtain ⟨hwatched, value, hstatus⟩ := (watched_of_spends hprograms hrun).finished call hcall
  rw [Watched, hstatus, usage_tally] at hwatched
  exact ⟨value, hstatus, hwatched.2⟩

/-- **A pool is spent.** The idle connections and what the calls have spent are what the pool had. -/
theorem idle_add_spent (hprograms : ∀ op, Spends (cost op) (programs op) 0)
    (hrun : Machine.run (step programs) (start connections) events = some system) :
    system.idle.length + ((system.running.map Call.spent).sum + (system.finished.map Call.spent).sum)
      = connections.length := by
  have hreturned := returned_of_spends hprograms hrun
  have hperm := idle_held_perm hrun fun call hcall => by
    rw [hreturned call hcall]
    exact List.nil_prefix
  have hheld {calls : List (Call ω κ R α)}
      (hcalls : ∀ call ∈ calls, returned call.trace = []) :
      (calls.flatMap fun call => held call.trace).length = (calls.map Call.spent).sum := by
    rw [List.length_flatMap]
    refine congrArg List.sum (List.map_congr_left fun call hcall => ?_)
    rw [held, hcalls call hcall]
    rfl
  have hlength := hperm.length_eq
  rwa [List.length_append, hheld hreturned, List.map_append, List.sum_append] at hlength

end Monitor
