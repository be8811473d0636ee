import QuickChat.Common.ConPools
import QuickChat.Lib.Machine

/-!
# Three pools and one

Each pool is the abstract one while it is not stopped. A stopped `RedisConPool` or `RPConPool` still
is; the predicate of `MySqlPool` is false in the stopped state, so a caller that is waiting when the
pool is closed, or that comes later, is never answered.
-/

namespace QuickChat

open Machine Waiters

variable {κ : Type} {kind : PoolKind} {pool next : ConPool κ}

namespace ConPool

def abstract (pool : ConPool κ) : AbstractPool κ :=
  if pool.b_stop_ then .stopped else .running pool.connections_

theorem abstract_of_running (hrunning : pool.b_stop_ = false) :
    pool.abstract = .running pool.connections_ := by
  simp [abstract, hrunning]

theorem abstract_of_stopped (hstopped : pool.b_stop_ = true) : pool.abstract = .stopped := by
  simp [abstract, hstopped]

theorem abstract_perform (pool : ConPool κ) (op : PoolOp κ) :
    (op.perform pool).abstract = pool.abstract.perform op := by
  cases op with
  | Close =>
      rw [abstract_of_stopped rfl]
      cases pool.abstract <;> rfl
  | returnConnection context =>
      simp only [PoolOp.perform, returnConnection]
      cases hstop : pool.b_stop_ with
      | true => simp [abstract_of_stopped hstop, AbstractPool.perform]
      | false => simp [abstract, hstop, AbstractPool.perform]

theorem predicate_of_running (hrunning : pool.b_stop_ = false) :
    kind.predicate pool = !pool.connections_.isEmpty := by
  cases kind <;> simp [PoolKind.predicate, MySqlPool.predicate, RedisConPool.predicate,
    RPConPool.predicate, hrunning]

theorem predicate_of_stopped (hstopped : pool.b_stop_ = true) :
    kind.predicate pool = decide (kind ≠ .MySqlPool) := by
  cases kind <;> simp [PoolKind.predicate, MySqlPool.predicate, RedisConPool.predicate,
    RPConPool.predicate, hstopped]

theorem getConnection_of_stopped (hstopped : pool.b_stop_ = true) :
    getConnection kind.predicate pool = if kind = .MySqlPool then none else some (none, pool) := by
  rw [getConnection, predicate_of_stopped hstopped]
  by_cases hkind : kind = .MySqlPool <;> simp [hkind, hstopped]

theorem getConnection_of_running (hrunning : pool.b_stop_ = false) :
    getConnection kind.predicate pool = match pool.connections_ with
      | [] => none
      | context :: connections => some (some context, ⟨connections, false⟩) := by
  rw [getConnection, predicate_of_running hrunning]
  cases hconnections : pool.connections_ <;> simp [hrunning]

/-- One attempt on a pool is one on the abstract pool, a stopped `MySqlPool` apart. -/
theorem take_abstract (hpool : kind = .MySqlPool → pool.b_stop_ = false) :
    pool.abstract.take =
      (getConnection kind.predicate pool).map (Prod.map id ConPool.abstract) := by
  cases hstop : pool.b_stop_ with
  | true =>
      have hkind : kind ≠ .MySqlPool := fun heq => absurd (hpool heq) (by simp [hstop])
      rw [getConnection_of_stopped hstop, abstract_of_stopped hstop, if_neg hkind]
      simp [AbstractPool.take, abstract_of_stopped hstop]
  | false =>
      rw [getConnection_of_running hstop, abstract_of_running hstop]
      cases pool.connections_ with
      | nil => rfl
      | cons context connections => rfl

theorem running_getConnection {result : Option κ} (hrunning : pool.b_stop_ = false)
    (hget : getConnection kind.predicate pool = some (result, next)) : next.b_stop_ = false := by
  rw [getConnection_of_running hrunning] at hget
  cases hconnections : pool.connections_ with
  | nil => simp [hconnections] at hget
  | cons context connections =>
      rw [hconnections, Option.some.injEq, Prod.mk.injEq] at hget
      rw [← hget.2]

end ConPool

namespace MySqlPool

variable {state : PoolCallers κ} {event : PoolEvent κ} {events : List (PoolEvent κ)}

/-- Nobody is waiting when the pool is closed, and nobody comes after that. -/
def Spares (state : PoolCallers κ) : PoolEvent κ → Prop
  | .call _ => state.resource.b_stop_ = false
  | .perform (.returnConnection _) _ => True
  | .perform .Close _ => state.waiting = []

def NoneStranded (state : PoolCallers κ) : Prop :=
  state.resource.b_stop_ = false ∨ state.waiting = []

/-- A caller is stranded exactly by a pool that is closed while it waits, or has been before it
comes. -/
theorem spares_iff (hstate : NoneStranded state) :
    Spares state event ↔ NoneStranded (enter PoolOp.perform state event) := by
  cases event with
  | call rank => simp [Spares, NoneStranded, enter]
  | perform op rank =>
      cases op with
      | Close => simp [Spares, NoneStranded, enter, PoolOp.perform, ConPool.Close]
      | returnConnection context =>
          refine iff_of_true trivial ?_
          rcases hstate with hrunning | hwaiting
          · left
            simp [enter, PoolOp.perform, ConPool.returnConnection, hrunning]
          · exact .inr hwaiting

theorem noneStranded_advance (henter : NoneStranded (enter PoolOp.perform state event)) :
    NoneStranded (PoolKind.MySqlPool.advance state event) := by
  rcases henter with hrunning | hwaiting
  · left
    refine advance_invariant (P := fun next : PoolCallers κ => next.resource.b_stop_ = false) ?_
      hrunning
    intro next caller hnext
    cases hget : ConPool.getConnection PoolKind.MySqlPool.predicate next.resource with
    | none => rwa [test_of_none hget]
    | some answer =>
        rw [test_of_some hget]
        exact ConPool.running_getConnection hnext hget
  · exact .inr (waiting_advance_of_nil hwaiting)

theorem advance_abstract (henter : NoneStranded (enter PoolOp.perform state event)) :
    (PoolKind.MySqlPool.advance state event).map ConPool.abstract =
      advance AbstractPool.take AbstractPool.perform (state.map ConPool.abstract) event :=
  advance_map (S := fun pool : ConPool κ => pool.b_stop_ = false)
    (fun _ hrunning => ConPool.take_abstract fun _ => hrunning)
    (fun _ _ _ hrunning hget => ConPool.running_getConnection hrunning hget)
    ConPool.abstract_perform henter

/-- A caller that a step has stranded is never answered, and the abstract pool answers it. -/
theorem stranded_outcome (hstate : Accounted [] state)
    (henter : ¬ NoneStranded (enter PoolOp.perform state event)) :
    ∃ call, (PoolKind.MySqlPool.run state (event :: events)).outcome call = none ∧
      (AbstractPool.run (state.map ConPool.abstract) (event :: events)).outcome call ≠ none := by
  obtain ⟨hstopped, hwaiting⟩ := not_or.mp henter
  rw [Bool.not_eq_false] at hstopped
  obtain ⟨call, hcall⟩ := List.exists_mem_of_ne_nil _ hwaiting
  have hentered : Accounted [] (enter PoolOp.perform state event) := hstate.enter event
  have hlt : call < (enter PoolOp.perform state event).calls := by
    refine List.mem_range.mp (hentered.mem_iff.mp ?_)
    simp [hcall]
  refine ⟨call, ?_, ?_⟩
  · have hstuck (pool : ConPool κ) (hpool : pool.b_stop_ = true) :
        ConPool.getConnection PoolKind.MySqlPool.predicate pool = none := by
      rw [ConPool.getConnection_of_stopped hpool, if_pos rfl]
    have hperform (pool : ConPool κ) (op : PoolOp κ) (hpool : pool.b_stop_ = true) :
        (PoolOp.perform pool op).b_stop_ = true := by
      cases op <;> simp [PoolOp.perform, ConPool.returnConnection, ConPool.Close, hpool]
    obtain ⟨hnext, hresults⟩ := results_advance_of_stuck hstuck hstopped
    have hrun := results_run_of_stuck hstuck hperform hnext events
    rw [← outcome_eq_none_iff hentered hlt] at hcall
    rw [System.outcome, ← hresults, ← hrun] at hcall
    exact hcall
  · refine outcome_run_ne_none ?_ events
    have hview : (enter PoolOp.perform state event).map ConPool.abstract = _ :=
      enter_map ConPool.abstract_perform event
    have habstract : Accounted [] (state.map ConPool.abstract) := hstate
    rw [Ne, outcome_eq_none_iff (habstract.advance event),
      waiting_advance_of_open (S := fun pool => pool = .stopped)]
    · simp
    · rintro pool rfl
      exact ⟨none, rfl⟩
    · rw [← hview]
      exact ConPool.abstract_of_stopped hstopped
    · rw [calls_advance, ← hview]
      exact hlt

/-- From the first step that is not spared on, some caller has no outcome where the abstract pool has
one. -/
theorem sameOutcomes_of (hstate : Accounted [] state) (hnone : NoneStranded state) :
    (∀ call, (PoolKind.MySqlPool.run state events).outcome call =
        (AbstractPool.run (state.map ConPool.abstract) events).outcome call) ↔
      EachStep (fun state event => some (PoolKind.MySqlPool.advance state event)) state events
        Spares := by
  induction events generalizing state with
  | nil => exact iff_of_true (fun _ => rfl) eachStep_nil
  | cons event events ih =>
      rw [eachStep_cons, spares_iff hnone]
      by_cases henter : NoneStranded (enter PoolOp.perform state event)
      · have hadvance : Accounted [] (PoolKind.MySqlPool.advance state event) := hstate.advance event
        have hnext := ih hadvance (noneStranded_advance henter)
        rw [advance_abstract henter] at hnext
        refine hnext.trans ?_
        simp [henter]
      · refine iff_of_false (fun hsame => ?_) fun hspares => henter hspares.1
        obtain ⟨call, hblocked, hanswered⟩ := stranded_outcome hstate henter
        exact hanswered ((hsame call).symm.trans hblocked)

end MySqlPool

namespace PoolKind

/-- **The pools against one another.** In every history, each of the three gives each caller what the
abstract pool gives it, except that `MySqlPool` does so exactly if nobody is waiting for it when it is
closed and nobody asks it for a connection after that. -/
theorem sameOutcomes_iff (kind : PoolKind) (connections : List κ) (events : List (PoolEvent κ)) :
    (∀ call, (kind.run (start (ConPool.new connections)) events).outcome call =
        (AbstractPool.run (start (.running connections)) events).outcome call) ↔
      (kind = .MySqlPool →
        EachStep (fun state event => some (kind.advance state event))
          (start (ConPool.new connections)) events MySqlPool.Spares) := by
  by_cases hkind : kind = .MySqlPool
  · subst hkind
    rw [forall_prop_of_true rfl]
    exact MySqlPool.sameOutcomes_of (accounted_start _) (.inl rfl)
  · refine iff_of_true (fun call => ?_) fun heq => absurd heq hkind
    have hrun : (kind.run (start (ConPool.new connections)) events).map ConPool.abstract = _ :=
      run_map (fun pool => ConPool.take_abstract fun heq => absurd heq hkind)
        ConPool.abstract_perform events
    rw [← outcome_map ConPool.abstract, hrun]
    rfl

/-- A caller waits for a connection and the pool is closed. -/
theorem outcomes_differ :
    (MySqlPool.run (start (ConPool.new ([] : List Unit))) [.call id, .perform .Close id]).outcome 0 =
        none ∧
      (RedisConPool.run (start (ConPool.new ([] : List Unit))) [.call id, .perform .Close id]).outcome
        0 = some none ∧
      (RPConPool.run (start (ConPool.new ([] : List Unit))) [.call id, .perform .Close id]).outcome
        0 = some none ∧
      (AbstractPool.run (start (.running ([] : List Unit))) [.call id, .perform .Close id]).outcome
        0 = some none := by
  decide

end PoolKind

end QuickChat
