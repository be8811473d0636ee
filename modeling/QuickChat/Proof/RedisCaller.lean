import QuickChat.Lib.Spend
import QuickChat.Proof.ConPools
import QuickChat.Proof.RedisMgr

/-!
# One caller and the contexts of the pool

A caller that gives no context back gets as far as the contexts reach. What it comes to from a pool
with enough of them is what it comes to when each `getConnection` is given one, and with fewer it does
not come to an end.
-/

namespace QuickChat

open Monitor Text

theorem ConPool.getConnection_idle (contexts : Nat) :
    (RedisConPool.idle contexts).getConnection RedisConPool.predicate =
      if contexts = 0 then none else some (some (), RedisConPool.idle (contexts - 1)) := by
  have hpool := @getConnection_of_running _ .RedisConPool (RedisConPool.idle contexts) rfl
  refine hpool.trans ?_
  cases contexts with
  | zero => rfl
  | succ contexts => rfl

namespace RedisMgr

variable {α β σ : Type} {Q : Nat → α → Prop} {program : RedisProgram Unit α} {taken : Nat}
  {db next : Redis} {value : α}

/-- **As far as the contexts reach.** A run in which every `getConnection` is given a context has taken
some number of them, and with that many in the pool it is the same. -/
theorem runOver_eq (hprogram : Spends Q program taken) (hrun : run program db = some (value, next)) :
    ∃ more, Q (taken + more) value ∧ ∀ contexts,
      runOver (RedisConPool.idle contexts) program db =
        if more ≤ contexts then some (value, RedisConPool.idle (contexts - more), next) else none := by
  induction program generalizing taken db with
  | ret returned =>
      obtain ⟨rfl, rfl⟩ := Prod.mk.inj (Option.some.inj hrun)
      exact ⟨0, hprogram.2, fun contexts => (if_pos (Nat.zero_le _)).symm⟩
  | call effect rest ih =>
      cases effect with
      | getConnection =>
          obtain ⟨more, hmore, hpool⟩ := ih (some ()) (hprogram.2 (some ()) trivial) hrun
          refine ⟨more + 1, by rwa [Nat.add_right_comm] at hmore, fun contexts => ?_⟩
          have hget := ConPool.getConnection_idle contexts
          cases contexts with
          | zero =>
              rw [if_neg (Nat.not_succ_le_zero more), runOver, Program.interp_call, StateT.run_bind]
              simp only [serveOver, StateT.run, hget, if_true]
              rfl
          | succ contexts =>
              rw [if_neg (Nat.succ_ne_zero contexts), Nat.add_sub_cancel] at hget
              rw [runOver, Program.interp_call, StateT.run_bind]
              simp only [serveOver, StateT.run, hget, Option.map_some]
              refine (hpool contexts).trans ?_
              rw [Nat.add_sub_add_right]
              exact if_congr (Nat.succ_le_succ_iff).symm rfl rfl
      | returnConnection connect =>
          -- The context that is put back would be in the tally.
          exact absurd (Program.wp_here (hprogram.2 ⟨⟩ trivial)) (Nat.succ_ne_zero 0)
      | other effect =>
          obtain ⟨⟨answer, middle⟩, hanswer, hrest⟩ := Option.bind_eq_some_iff.mp hrun
          obtain ⟨more, hmore, hpool⟩ := ih answer (hprogram.2 answer trivial) hrest
          refine ⟨more, hmore, fun contexts => ?_⟩
          have hcommand : serveCommand effect db = some (answer, middle) := hanswer
          rw [runOver, Program.interp_call, StateT.run_bind]
          simp only [serveOver, StateT.run, hcommand]
          exact hpool contexts

/-! ### With replies one after the other -/

/-- What `HGet` makes of a reply; none when it reads through a null `str`. -/
def hgetText : Option redisReply → Option Bytes
  | none => some []
  | some reply => if reply.type = .NIL then some [] else reply.str.map c_str

variable {replies : Nat → Option redisReply} {contexts sent : Nat}

theorem runReplies_bind (program : RedisProgram Unit α) (second : α → RedisProgram Unit β)
    (state : ConPool Unit × Nat) :
    runReplies replies (program >>= second) state =
      (runReplies replies program state).bind fun result =>
        runReplies replies (second result.1) result.2 := by
  rw [runReplies, Program.interp_bind]
  rfl

/-- With these replies the program returns a value in `Q`, and leaves this behind. -/
def Returns (replies : Nat → Option redisReply) (program : RedisProgram Unit α) (Q : α → Prop)
    (state final : ConPool Unit × Nat) : Prop :=
  ∃ value, Q value ∧ runReplies replies program state = some (value, final)

theorem returns_bind {program : RedisProgram Unit α} {second : α → RedisProgram Unit β} {Q : β → Prop}
    {state final : ConPool Unit × Nat} :
    Returns replies (program >>= second) Q state final ↔
      ∃ value middle, runReplies replies program state = some (value, middle) ∧
        Returns replies (second value) Q middle final := by
  simp only [Returns, runReplies_bind, Option.bind_eq_some_iff, Prod.exists]
  constructor
  · rintro ⟨value, hvalue, first, pool, sent, hfirst, hsecond⟩
    exact ⟨first, pool, sent, hfirst, value, hvalue, hsecond⟩
  · rintro ⟨first, pool, sent, hfirst, value, hvalue, hsecond⟩
    exact ⟨value, hvalue, first, pool, sent, hfirst, hsecond⟩

theorem returns_pure {value : α} {Q : α → Prop} {state final : ConPool Unit × Nat} :
    Returns replies (pure value) Q state final ↔ Q value ∧ state = final := by
  constructor
  · rintro ⟨other, hother, hsome⟩
    obtain ⟨rfl, rfl⟩ := Prod.mk.inj (Option.some.inj hsome)
    exact ⟨hother, rfl⟩
  · rintro ⟨hvalue, rfl⟩
    exact ⟨value, hvalue, rfl⟩

/-- What is computed from the value of a program does not change what it leaves behind. -/
theorem returns_map {program : RedisProgram Unit α} {f : α → β} {Q : β → Prop}
    {state final : ConPool Unit × Nat} :
    Returns replies (program >>= fun value => pure (f value)) Q state final ↔
      Returns replies program (fun value => Q (f value)) state final := by
  simp only [returns_bind, returns_pure]
  constructor
  · rintro ⟨value, middle, hrun, hvalue, rfl⟩
    exact ⟨value, hvalue, hrun⟩
  · rintro ⟨value, hvalue, hrun⟩
    exact ⟨value, final, hrun, hvalue, rfl⟩

theorem runReplies_getConnection :
    runReplies replies getConnection (RedisConPool.idle contexts, sent) =
      if contexts = 0 then none else some (some (), RedisConPool.idle (contexts - 1), sent) := by
  have hget := ConPool.getConnection_idle contexts
  change (((RedisConPool.idle contexts).getConnection RedisConPool.predicate).map fun result =>
    (result.1, result.2, sent)).bind some = _
  rw [hget]
  split <;> rfl

theorem runReplies_redisCommand (connect : Option Unit) (argv : List Bytes) (pool : ConPool Unit) :
    runReplies replies (redisCommand connect argv) (pool, sent) =
      some (replies sent, pool, sent + 1) := rfl

/-- An operation takes a context before anything else, and waits where there is none. -/
theorem runReplies_execute (argv : List Bytes) (failure : α)
    (onReply : redisReply → RedisProgram Unit α) :
    runReplies replies (execute argv failure onReply) (RedisConPool.idle contexts, sent) =
      if contexts = 0 then none
      else
        match replies sent with
        | none => some (failure, RedisConPool.idle (contexts - 1), sent + 1)
        | some reply => runReplies replies (onReply reply)
            (RedisConPool.idle (contexts - 1), sent + 1) := by
  rw [execute, runReplies_bind, runReplies_getConnection]
  split
  · rfl
  · rw [Option.bind_some, Option.isNone_some, if_neg Bool.false_ne_true, runReplies_bind,
      runReplies_redisCommand, Option.bind_some]
    cases replies sent <;> rfl

/-- So a lookup costs one context, whatever its reply. -/
theorem runReplies_HGet (key hkey : Bytes) :
    runReplies replies (HGet key hkey) (RedisConPool.idle contexts, sent) =
      if contexts = 0 then none
      else (hgetText (replies sent)).map fun text =>
        (text, RedisConPool.idle (contexts - 1), sent + 1) := by
  rw [HGet, runReplies_execute]
  split
  · rfl
  · cases replies sent with
    | none => rfl
    | some reply =>
        simp only [hgetText]
        split
        · rfl
        · rw [replyText]
          cases reply.str <;> rfl

/-- `Set` comes to an end if there is a context for it, and a text in the reply, if there is one. -/
theorem returns_Set_iff {key value : Bytes} {final : ConPool Unit × Nat} :
    Returns replies (Set key value) (fun _ => True) (RedisConPool.idle contexts, sent) final ↔
      contexts ≠ 0 ∧ (∀ reply ∈ replies sent, reply.str ≠ none) ∧
        (RedisConPool.idle (contexts - 1), sent + 1) = final := by
  rw [Returns, Set, runReplies_execute]
  by_cases hnone : contexts = 0
  · simp [hnone]
  rw [if_neg hnone, and_iff_right hnone]
  cases replies sent with
  | none => simp
  | some reply =>
      simp only [replyText, Option.mem_some_iff, forall_eq', true_and]
      cases reply.str with
      | none =>
          refine iff_of_false ?_ fun hall => hall.1 rfl
          rintro ⟨_, hsome⟩
          cases hsome
      | some str =>
          constructor
          · rintro ⟨_, hsome⟩
            exact ⟨Option.some_ne_none _, (Prod.mk.inj (Option.some.inj hsome)).2⟩
          · rintro ⟨-, rfl⟩
            exact ⟨_, rfl⟩

end RedisMgr

end QuickChat
