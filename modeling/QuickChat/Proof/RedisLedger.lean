import Mathlib.Algebra.Order.Group.Multiset
import Mathlib.Tactic.Abel
import QuickChat.Common.RedisPoolRuns
import QuickChat.Proof.RedisCheck

/-!
# The ledger of the Redis pool

No operation puts a context into two places or frees it twice: what has been obtained is what is idle,
held or freed, and what has been lost. Contexts are lost where a password is refused and where one comes
back after the stop, and the idle ones are lost in the end, since nothing frees them. A run cannot keep
the ledger in any case: its second `Close` joins a thread that has been joined.
-/

namespace QuickChat

open Text

namespace RedisConPool

variable {κ : Type} {pwd_ : Option Bytes} {trace : RedisPoolTrace κ}

/-! ### What an operation does with its contexts -/

theorem obtainedIn_append (first second : RedisPoolTrace κ) :
    obtainedIn (first ++ second) = obtainedIn first ++ obtainedIn second := List.flatMap_append

theorem freedIn_append (first second : RedisPoolTrace κ) :
    freedIn (first ++ second) = freedIn first ++ freedIn second := List.flatMap_append

/-- The contexts obtained along the trace, and `taken`, are those put back, those freed, and lost
ones. -/
def Balances (taken : List κ) (trace : RedisPoolTrace κ) (back : List κ) : Prop :=
  ∃ lost, (taken ++ obtainedIn trace).Perm (back ++ (freedIn trace ++ lost))

/-- What the first part gives back is what the second one starts with. -/
theorem Balances.append {taken taken' back back' : List κ} {first second : RedisPoolTrace κ}
    (hfirst : Balances taken first back) (hsecond : Balances taken' second back') :
    Balances (taken ++ taken') (first ++ second) (back ++ back') := by
  obtain ⟨lost, hlost⟩ := hfirst
  obtain ⟨lost', hlost'⟩ := hsecond
  refine ⟨lost ++ lost', ?_⟩
  rw [obtainedIn_append, freedIn_append]
  rw [← Multiset.coe_eq_coe] at hlost hlost' ⊢
  simp only [← Multiset.coe_add] at hlost hlost' ⊢
  calc (taken : Multiset κ) + taken' + (obtainedIn first + obtainedIn second)
      = (taken + obtainedIn first) + (taken' + obtainedIn second) := by abel
    _ = (back + (freedIn first + lost)) + (back' + (freedIn second + lost')) := by rw [hlost, hlost']
    _ = back + back' + (freedIn first + freedIn second + (lost + lost')) := by abel

instance (context : κ) : Nonempty (RedisPoolEffect.redisFree context).Reply := ⟨()⟩

instance : Nonempty (RedisPoolEffect.redisConnect : RedisPoolEffect κ).Reply :=
  ⟨(none : Option (κ × Bool))⟩

theorem authFailed_ends {context : κ} {pwd : Bytes} {outcome : Option (Except RedisException Bool)}
    (hends : (authFailed context pwd).run.Ends trace outcome) :
    obtainedIn trace = [] ∧ freedIn trace = [] := by
  obtain ⟨reply, rest, rfl, hrest⟩ := Program.ends_call_iff_of_nonempty.mp hends
  cases reply with
  | error e =>
      obtain ⟨rfl, rfl⟩ := Program.ends_ret_iff.mp hrest
      exact ⟨rfl, rfl⟩
  | ok reply =>
      cases reply with
      | none =>
          rcases Program.ends_call_iff.mp hrest with ⟨-, rfl, rfl⟩ | ⟨answer, -, -, -⟩
          · exact ⟨rfl, rfl⟩
          · exact answer.elim
      | some reply =>
          obtain ⟨rfl, rfl⟩ := Program.ends_ret_iff.mp hrest
          exact ⟨rfl, rfl⟩

/-- A context that is connected is put back, freed, or lost with its password refused. -/
theorem connect_balances {back : Option κ}
    (hends : (connect pwd_ : RedisPoolTry κ (Option κ)).run.Ends trace (some (.ok back))) :
    Balances [] trace back.toList := by
  obtain ⟨opened, rest, rfl, hrest⟩ := Program.ends_call_iff_of_nonempty.mp hends
  match opened with
  | none =>
      obtain ⟨rfl, hback⟩ := Program.ends_ret_iff.mp hrest
      obtain rfl := Except.ok.inj (Option.some.inj hback)
      exact ⟨[], List.Perm.refl _⟩
  | some (context, true) =>
      obtain ⟨_, last, rfl, hlast⟩ := Program.ends_call_iff_of_nonempty.mp hrest
      obtain ⟨rfl, hback⟩ := Program.ends_ret_iff.mp hlast
      obtain rfl := Except.ok.inj (Option.some.inj hback)
      exact ⟨[], List.Perm.refl _⟩
  | some (context, false) =>
      cases pwd_ with
      | none =>
          obtain ⟨rfl, hback⟩ := Program.ends_ret_iff.mp hrest
          obtain rfl := Except.ok.inj (Option.some.inj hback)
          exact ⟨[], List.Perm.refl _⟩
      | some pwd =>
          obtain ⟨failed, asked, last, rfl, hasked, hlast⟩ := Program.ends_raising_bind_iff.mp hrest
          obtain ⟨hobtained, hfreed⟩ := authFailed_ends hasked
          have hempty : Balances [] asked [] := ⟨[], by rw [hobtained, hfreed]; exact List.Perm.refl _⟩
          cases failed with
          | true =>
              obtain ⟨rfl, hback⟩ := Program.ends_ret_iff.mp hlast
              obtain rfl := Except.ok.inj (Option.some.inj hback)
              rw [List.append_nil]
              -- the context of the refused password
              have hlost : Balances [] [⟨.redisConnect, some (context, false)⟩] ([] : List κ) :=
                ⟨[context], List.Perm.refl _⟩
              exact hlost.append hempty
          | false =>
              obtain ⟨rfl, hback⟩ := Program.ends_ret_iff.mp hlast
              obtain rfl := Except.ok.inj (Option.some.inj hback)
              rw [List.append_nil]
              have hput : Balances [] [⟨.redisConnect, some (context, false)⟩] [context] :=
                ⟨[], List.Perm.refl _⟩
              exact hput.append hempty

theorem construct_balances {turns : Nat} {pool queue : List κ}
    (hends : (construct pwd_ turns pool).run.Ends trace (some (.ok queue))) :
    Balances pool trace queue := by
  induction turns generalizing pool trace with
  | zero =>
      obtain ⟨rfl, hqueue⟩ := Program.ends_ret_iff.mp hends
      obtain rfl := Except.ok.inj (Option.some.inj hqueue)
      exact ⟨[], List.Perm.refl _⟩
  | succ turns ih =>
      obtain ⟨back, first, rest, rfl, hfirst, hrest⟩ := Program.ends_raising_bind_iff.mp hends
      obtain ⟨lost, hlost⟩ := connect_balances hfirst
      obtain ⟨lost', hlost'⟩ := ih hrest
      refine ⟨lost ++ lost', ?_⟩
      rw [obtainedIn_append, freedIn_append]
      rw [← Multiset.coe_eq_coe] at hlost hlost' ⊢
      simp only [← Multiset.coe_add, Multiset.coe_nil, zero_add] at hlost hlost' ⊢
      calc (pool : Multiset κ) + (obtainedIn first + obtainedIn rest)
          = pool + (back.toList + (freedIn first + lost)) + obtainedIn rest := by
            rw [← hlost, add_assoc]
        _ = pool + back.toList + obtainedIn rest + (freedIn first + lost) := by abel
        _ = queue + (freedIn rest + lost') + (freedIn first + lost) := by rw [hlost']
        _ = queue + (freedIn first + freedIn rest + (lost + lost')) := by abel

/-- A context whose `PING` throws is freed, and the one that replaces it was obtained. -/
theorem checkOne_balances {context : κ} {back : Option κ}
    (hends : (checkOne pwd_ context).Ends trace (some (back, none))) :
    Balances [context] trace back.toList := by
  obtain ⟨reply, rest, rfl, hrest⟩ := Program.ends_call_iff_of_nonempty.mp hends
  match reply with
  | .ok none =>
      obtain ⟨rfl, hback⟩ := Program.ends_ret_iff.mp hrest
      obtain ⟨rfl, -⟩ := Prod.mk.inj (Option.some.inj hback)
      exact ⟨[], List.Perm.refl _⟩
  | .ok (some reply) =>
      obtain ⟨rfl, hback⟩ := Program.ends_ret_iff.mp hrest
      obtain ⟨rfl, -⟩ := Prod.mk.inj (Option.some.inj hback)
      exact ⟨[], List.Perm.refl _⟩
  | .error e =>
      obtain ⟨_, tail, rfl, htail⟩ := Program.ends_call_iff_of_nonempty.mp hrest
      change ((connect pwd_).run >>= _ : RedisPoolProgram κ _).Ends tail _ at htail
      rcases Program.ends_bind_iff.mp htail with ⟨-, hnone⟩ | ⟨result, opened, last, rfl, hopened, hlast⟩
      · exact absurd hnone (by simp)
      · cases result with
        | error e =>
            obtain ⟨-, hback⟩ := Program.ends_ret_iff.mp hlast
            exact absurd hback (by simp)
        | ok kept =>
            obtain ⟨rfl, hback⟩ := Program.ends_ret_iff.mp hlast
            obtain ⟨rfl, -⟩ := Prod.mk.inj (Option.some.inj hback)
            rw [List.append_nil]
            have hfree : Balances [context] [⟨.redisCommand context [ascii "PING"], .error e⟩,
                ⟨.redisFree context, ()⟩] ([] : List κ) := ⟨[], List.Perm.refl _⟩
            exact hfree.append (connect_balances hopened)

theorem Balances.of_perm {taken back back' : List κ} (hback : back.Perm back')
    (hbalances : Balances taken trace back) : Balances taken trace back' := by
  obtain ⟨lost, hlost⟩ := hbalances
  exact ⟨lost, hlost.trans (hback.append_right _)⟩

/-- By induction on the queue, up to the turn in which the pool is stopped. -/
theorem turns_balance {pool : List κ} {passed : Option (Sweep.Passed κ RedisException)}
    (hturns : Sweep.Turns (do return !(← load_b_stop_)) (checkOne pwd_) pool trace passed)
    {back left : List κ} (hpassed : passed = some ⟨back, left, none⟩) :
    Balances pool trace (back ++ left) := by
  induction hturns generalizing back with
  | finished =>
      cases hpassed
      exact ⟨[], List.Perm.refl _⟩
  | unasked hmore => exact absurd hpassed (by simp)
  | stopped hmore =>
      cases hpassed
      obtain ⟨stopped, rfl, -⟩ := more_ends hmore
      exact ⟨[], by simp [obtainedIn, freedIn]⟩
  | stuck hmore hvisit => exact absurd hpassed (by simp)
  | raised hmore hvisit => exact absurd hpassed (by simp)
  | @visited context pool asked seen trace kept outcome hmore hvisit hrest ih =>
      obtain ⟨⟨back', left', error⟩, houtcome, hpassed⟩ := Option.map_eq_some_iff.mp hpassed
      cases hpassed
      obtain ⟨stopped, rfl, -⟩ := more_ends hmore
      have hasked : Balances [] [⟨.load_b_stop_, stopped⟩] ([] : List κ) := ⟨[], List.Perm.refl _⟩
      have htail := (checkOne_balances hvisit).append (ih houtcome)
      rw [List.append_assoc]
      exact hasked.append htail

theorem checkThread_balances {pool queue : List κ}
    (hends : (checkThread pwd_ pool).Ends trace (some (queue, none))) :
    Balances pool trace queue := by
  obtain ⟨stopped, rest, rfl, hrest⟩ := Program.ends_call_iff_of_nonempty.mp hends
  have hload : Balances [] [⟨.load_b_stop_, stopped⟩] ([] : List κ) := ⟨[], List.Perm.refl _⟩
  cases stopped with
  | true =>
      obtain ⟨rfl, hqueue⟩ := Program.ends_ret_iff.mp hrest
      obtain ⟨rfl, -⟩ := Prod.mk.inj (Option.some.inj hqueue)
      exact ⟨[], by simp [obtainedIn, freedIn]⟩
  | false =>
      have hloop : (Sweep.loop (do return !(← load_b_stop_)) (checkOne pwd_) emptyFront pool.length
          (pool ++ [])).Ends rest (some (queue, none)) := by
        rw [List.append_nil]
        exact hrest
      obtain ⟨passed, hturns, hpassed⟩ := Sweep.turns_of_ends hloop
      obtain ⟨⟨back, left, error⟩, rfl, hqueue⟩ := Option.map_eq_some_iff.mp hpassed.symm
      obtain ⟨hback, rfl⟩ := Prod.mk.inj hqueue
      have hturns := (turns_balance hturns rfl).of_perm List.perm_append_comm
      rw [← hback]
      exact hload.append hturns

/-! ### Along a run -/

variable {poolSize : Nat} {state next : RunState κ}

structure Conserved (state : RunState κ) : Prop where
  nodup : state.obtained.Nodup
  places : ∃ lost, state.obtained.Perm
    (state.pool.connections_ ++ (state.held ++ (state.freed ++ lost)))

theorem conserved_of_starts (hstarts : Starts poolSize pwd_ state) : Conserved state := by
  cases hstarts with
  | @new trace pool hnew hfresh =>
      refine ⟨hfresh, ?_⟩
      obtain ⟨queue, first, rest, rfl, hconstruct, hrest⟩ := Program.ends_raising_bind_iff.mp hnew
      obtain ⟨rfl, hpool⟩ := Program.ends_ret_iff.mp hrest
      obtain rfl := Except.ok.inj (Option.some.inj hpool)
      rw [List.append_nil]
      obtain ⟨lost, hlost⟩ := construct_balances hconstruct
      exact ⟨lost, by simpa [ConPool.new] using hlost⟩

/-- A context comes from the front of the queue. -/
theorem connections_of_getConnection {pool pool' : ConPool κ} {context : κ}
    (htake : pool.getConnection predicate = some (some context, pool')) :
    pool.connections_ = context :: pool'.connections_ := by
  unfold ConPool.getConnection at htake
  split at htake
  · split at htake
    · exact absurd htake (by simp)
    · cases hconnections : pool.connections_ with
      | nil =>
          rw [hconnections] at htake
          exact absurd htake (by simp)
      | cons first rest =>
          rw [hconnections] at htake
          obtain ⟨hcontext, rfl⟩ := Prod.mk.inj (Option.some.inj htake)
          rw [Option.some.inj hcontext]
  · exact absurd htake (by simp)

variable [DecidableEq κ]

/-- A context that comes back to a stopped pool is lost. -/
theorem perm_returnConnection {pool : ConPool κ} {context : κ} {held freed lost : List κ}
    (hheld : context ∈ held) :
    ∃ lost', (pool.connections_ ++ (held ++ (freed ++ lost))).Perm
      ((pool.returnConnection context).connections_ ++ (held.erase context ++ (freed ++ lost'))) := by
  have hsplit : (held : Multiset κ) = {context} + held.erase context :=
    Multiset.coe_eq_coe.mpr (List.perm_cons_erase hheld)
  unfold ConPool.returnConnection
  by_cases hstop : pool.b_stop_ = true
  · refine ⟨context :: lost, ?_⟩
    rw [if_pos hstop, ← Multiset.coe_eq_coe]
    simp only [← Multiset.coe_add, ← Multiset.cons_coe, hsplit, ← Multiset.singleton_add]
    abel
  · refine ⟨lost, ?_⟩
    rw [if_neg hstop, ← Multiset.coe_eq_coe]
    simp only [← Multiset.coe_add, hsplit, Multiset.coe_singleton]
    abel

/-- Whatever a step does, it moves contexts between the four places. -/
theorem conserved_step (hstate : Conserved state) (hstep : Step pwd_ state next) :
    Conserved next := by
  obtain ⟨hnodup, lost, hlost⟩ := hstate
  cases hstep with
  | getConnection htake =>
      refine ⟨hnodup, lost, hlost.trans ?_⟩
      rw [connections_of_getConnection htake]
      exact List.perm_middle.symm
  | returnConnection hheld =>
      obtain ⟨lost', hplaces⟩ := perm_returnConnection hheld
      exact ⟨hnodup, lost', hlost.trans hplaces⟩
  | checkThread hthread hcheck hstop hfresh =>
      refine ⟨hfresh, ?_⟩
      obtain ⟨lost', hlost'⟩ := checkThread_balances hcheck
      refine ⟨lost ++ lost', ?_⟩
      rw [← Multiset.coe_eq_coe] at hlost hlost' ⊢
      simp only [← Multiset.coe_add] at hlost hlost' ⊢
      rw [hlost, add_right_comm, hlost']
      abel
  | exit hstop => exact ⟨hnodup, lost, hlost⟩
  | stop => exact ⟨hnodup, lost, hlost⟩
  | join hstop hjoinable hexited => exact ⟨hnodup, lost, hlost⟩
  | joinAgain hstop hjoinable => exact ⟨hnodup, lost, hlost⟩

theorem Run.invariant {P : RunState κ → Prop} {first : RunState κ} {rest : List (RunState κ)}
    (hrun : Run poolSize pwd_ first rest) (hfirst : P first)
    (hstep : ∀ state next, P state → Step pwd_ state next → P next) :
    ∀ state ∈ first :: rest, P state := by
  have hsteps := hrun.steps
  clear hrun
  induction rest generalizing first with
  | nil => exact List.forall_mem_singleton.mpr hfirst
  | cons second rest ih =>
      obtain ⟨hone, hrest⟩ := List.isChain_cons_cons.mp hsteps
      exact List.forall_mem_cons.mpr ⟨hfirst, ih (hstep _ _ hfirst hone) hrest⟩

/-- **No context is in two places, or freed twice**, in any state of any run. -/
theorem places_nodup {first : RunState κ} {rest : List (RunState κ)}
    (hrun : Run poolSize pwd_ first rest) (hstate : state ∈ first :: rest) :
    (state.pool.connections_ ++ (state.held ++ state.freed)).Nodup := by
  have hconserved := hrun.invariant (conserved_of_starts hrun.starts) (fun _ _ => conserved_step)
    state hstate
  obtain ⟨lost, hlost⟩ := hconserved.places
  refine List.Nodup.sublist ?_ (hlost.nodup_iff.mp hconserved.nodup)
  apply (List.Sublist.refl _).append
  exact (List.Sublist.refl _).append (List.sublist_append_left _ _)

/-- A context that is in the pool has not been freed; at the end of a run it is lost. -/
theorem not_freed_of_idle {first : RunState κ} {rest : List (RunState κ)}
    (hrun : Run poolSize pwd_ first rest) (hstate : state ∈ first :: rest) {context : κ}
    (hidle : context ∈ state.pool.connections_) : context ∉ state.freed := by
  intro hfreed
  have hdisjoint := (List.nodup_append.mp (places_nodup hrun hstate)).2.2
  exact hdisjoint context hidle context (List.mem_append_right _ hfreed) rfl

/-! ### The end of a run -/

/-- A thread that has not been joined can be; of those that come after the first join, each raises. -/
structure JoinedOnce (state : RunState κ) : Prop where
  joinable : state.joinable = true → state.joins = []
  joined : state.joinable = false → ∃ again, state.joins = true :: List.replicate again false

omit [DecidableEq κ] in
theorem joinedOnce_of_starts (hstarts : Starts poolSize pwd_ state) : JoinedOnce state := by
  cases hstarts with
  | new hnew hfresh => exact ⟨fun _ => rfl, fun hjoinable => absurd hjoinable (by simp)⟩

/-- A thread that has been joined stays so, and a further join raises. -/
theorem joinedOnce_step (hstate : JoinedOnce state) (hstep : Step pwd_ state next) :
    JoinedOnce next := by
  cases hstep with
  | getConnection htake => exact ⟨hstate.joinable, hstate.joined⟩
  | returnConnection hheld => exact ⟨hstate.joinable, hstate.joined⟩
  | checkThread hthread hcheck hstop hfresh => exact ⟨hstate.joinable, hstate.joined⟩
  | exit hstop => exact ⟨hstate.joinable, hstate.joined⟩
  | stop => exact ⟨hstate.joinable, hstate.joined⟩
  | join hstop hjoinable hexited =>
      refine ⟨fun hagain => absurd hagain (by simp), fun _ => ⟨0, ?_⟩⟩
      rw [hstate.joinable hjoinable]
      rfl
  | joinAgain hstop hjoinable =>
      obtain ⟨again, hjoins⟩ := hstate.joined hjoinable
      refine ⟨fun hagain => absurd (hjoinable.symm.trans hagain) (by simp), fun _ => ⟨again + 1, ?_⟩⟩
      rw [hjoins, List.cons_append, List.replicate_succ']

/-- **No run keeps the ledger** to its end: the second `Close` does not return from its `join`. -/
theorem not_ledger_of_complete {first : RunState κ} {rest : List (RunState κ)}
    (hrun : Run poolSize pwd_ first rest) (hcomplete : Complete first rest) : ¬ Ledger first rest := by
  intro hledger
  have hlast := List.getLast_mem (List.cons_ne_nil first rest)
  have hjoined := hrun.invariant (joinedOnce_of_starts hrun.starts) (fun _ _ => joinedOnce_step) _ hlast
  apply hledger.joined _ hlast
  unfold Complete at hcomplete
  cases hjoinable : ((first :: rest).getLast (List.cons_ne_nil _ _)).joinable with
  | true =>
      rw [hjoined.joinable hjoinable] at hcomplete
      exact absurd hcomplete (by simp)
  | false =>
      obtain ⟨again, hjoins⟩ := hjoined.joined hjoinable
      rw [hjoins, List.length_cons, List.length_replicate] at hcomplete
      obtain rfl : again = 1 := by omega
      rw [hjoins]
      decide

/-! ### The two calls of `Close` -/

namespace TwoCloses

def opened : RunState Nat := ⟨⟨[0], false⟩, false, true, [], [0], [], []⟩

def stopped : RunState Nat := ⟨⟨[0], true⟩, false, true, [], [0], [], []⟩

def exited : RunState Nat := ⟨⟨[0], true⟩, true, true, [], [0], [], []⟩

def joined : RunState Nat := ⟨⟨[0], true⟩, true, false, [true], [0], [], []⟩

def joinedAgain : RunState Nat := ⟨⟨[0], true⟩, true, false, [true, false], [0], [], []⟩

theorem starts : Starts 1 none opened := by
  have hends : (new 1 none : RedisPoolTry Nat (ConPool Nat)).run.Ends
      [⟨.redisConnect, some (0, false)⟩] (some (.ok ⟨[0], false⟩)) := .call (.ret _)
  exact .new hends (List.nodup_singleton 0)

/-- The flag is set, the thread ends and is joined; then the flag is set again, and the thread is to be
joined again. -/
theorem run : Run 1 none opened [stopped, exited, joined, joined, joinedAgain] where
  starts := starts
  steps := by
    refine .cons_cons .stop (.cons_cons (.exit rfl) (.cons_cons (.join rfl rfl rfl) ?_))
    exact .cons_cons .stop (.cons_cons (.joinAgain rfl rfl) (.singleton _))

end TwoCloses

theorem not_ledger_twoCloses :
    ¬ Ledger TwoCloses.opened [TwoCloses.stopped, TwoCloses.exited, TwoCloses.joined,
      TwoCloses.joined, TwoCloses.joinedAgain] :=
  not_ledger_of_complete TwoCloses.run rfl

theorem not_ledger_of_run :
    ¬ ∀ (poolSize : Nat) (pwd_ : Option Bytes) (first : RunState Nat) (rest : List (RunState Nat)),
      Run poolSize pwd_ first rest → Complete first rest → Ledger first rest := by
  intro hall
  have hledger := hall _ _ _ _ TwoCloses.run rfl
  exact absurd (hledger.joined TwoCloses.joinedAgain (by simp)) (by decide)

end RedisConPool

end QuickChat
