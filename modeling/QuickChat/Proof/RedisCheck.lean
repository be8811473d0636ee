import QuickChat.Common.RedisConPool

/-!
# What the check does to the Redis pool

A lost connection shows in a null reply to the `PING`, and a context that got one goes back into the
queue. The repair stands in the `catch` block, which hiredis never reaches.
-/

namespace QuickChat

open Text

namespace RedisConPool

variable {κ : Type} {pwd_ : Option Bytes} {context : κ} {pool : List κ} {trace : RedisPoolTrace κ}

/-! ### What the check is for -/

def PingFailed (context : κ) : ((effect : RedisPoolEffect κ) × effect.Reply) → Prop
  | ⟨.redisCommand asked argv, Except.ok none⟩ => asked = context ∧ argv = [ascii "PING"]
  | ⟨.redisCommand asked argv, Except.error _⟩ => asked = context ∧ argv = [ascii "PING"]
  | _ => False

def Freed (context : κ) : ((effect : RedisPoolEffect κ) × effect.Reply) → Prop
  | ⟨.redisFree freed, _⟩ => freed = context
  | _ => False

def Connected (context : κ) : ((effect : RedisPoolEffect κ) × effect.Reply) → Prop
  | ⟨.redisConnect, some (opened, false)⟩ => opened = context
  | _ => False

def Authenticated (context : κ) (pwd : Bytes) : ((effect : RedisPoolEffect κ) × effect.Reply) → Prop
  | ⟨.redisCommand asked argv, Except.ok (some reply)⟩ =>
      asked = context ∧ argv = [ascii "AUTH", c_str pwd] ∧ reply.type ≠ .ERROR
  | _ => False

/-- What is to become of a context: one that answers stays, and one whose `PING` failed is freed and
removed, or replaced by one that is freshly connected and authenticated. -/
inductive Repaired (pwd_ : Option Bytes) (context : κ) : RedisPoolTrace κ → Option κ → Prop where
  | answered (reply : redisReply) :
      Repaired pwd_ context [⟨.redisCommand context [ascii "PING"], .ok (some reply)⟩] (some context)
  | removed {ping : (effect : RedisPoolEffect κ) × effect.Reply} {trace : RedisPoolTrace κ}
      (hping : PingFailed context ping) (hfree : ∃ entry ∈ trace, Freed context entry) :
      Repaired pwd_ context (ping :: trace) none
  | replaced {ping : (effect : RedisPoolEffect κ) × effect.Reply} {trace : RedisPoolTrace κ} {fresh : κ}
      (hping : PingFailed context ping) (hfree : ∃ entry ∈ trace, Freed context entry)
      (hconnect : ∃ entry ∈ trace, Connected fresh entry)
      (hauth : ∀ pwd ∈ pwd_, ∃ entry ∈ trace, Authenticated fresh pwd entry) :
      Repaired pwd_ context (ping :: trace) (some fresh)

/-- Each context in turn, until the pool is stopped: `back` is what has come of those that were looked
at, and `left` are the others. -/
inductive Repairs (pwd_ : Option Bytes) : List κ → RedisPoolTrace κ → List κ → List κ → Prop where
  | finished : Repairs pwd_ [] [] [] []
  | stopped (context : κ) (pool : List κ) :
      Repairs pwd_ (context :: pool) [⟨.load_b_stop_, true⟩] [] (context :: pool)
  | visited {context : κ} {pool back left : List κ} {seen trace : RedisPoolTrace κ} {kept : Option κ}
      (hcontext : Repaired pwd_ context seen kept) (hpool : Repairs pwd_ pool trace back left) :
      Repairs pwd_ (context :: pool) (⟨.load_b_stop_, false⟩ :: (seen ++ trace))
        (kept.toList ++ back) left

/-- The function returns with the pool as it was, because it is stopped, or with a pool that is
repaired. -/
def RepairsPool (pwd_ : Option Bytes) (pool : List κ) (trace : RedisPoolTrace κ)
    (outcome : Option (List κ × Option RedisException)) : Prop :=
  (trace = [⟨.load_b_stop_, true⟩] ∧ outcome = some (pool, none)) ∨
    ∃ (turns : RedisPoolTrace κ) (back left : List κ), trace = ⟨.load_b_stop_, false⟩ :: turns ∧
      Repairs pwd_ pool turns back left ∧ outcome = some (left ++ back, none)

def Throws : ((effect : RedisPoolEffect κ) × effect.Reply) → Prop
  | ⟨.redisCommand _ _, Except.error _⟩ => True
  | _ => False

def NullPing : ((effect : RedisPoolEffect κ) × effect.Reply) → Prop
  | ⟨.redisCommand _ argv, Except.ok none⟩ => argv = [ascii "PING"]
  | _ => False

/-- A repaired pool has had a context freed for every `PING` that was answered with null. -/
theorem exists_freed_of_repairs {back left : List κ} (hpool : Repairs pwd_ pool trace back left)
    {entry : (effect : RedisPoolEffect κ) × effect.Reply} (hentry : entry ∈ trace)
    (hnull : NullPing entry) : ∃ context, ∃ free ∈ trace, Freed context free := by
  induction hpool with
  | finished => exact absurd hentry List.not_mem_nil
  | stopped _ _ =>
      rw [List.mem_singleton.mp hentry] at hnull
      exact hnull.elim
  | @visited context pool back left seen trace kept hcontext hpool ih =>
      rcases List.mem_cons.mp hentry with rfl | hentry
      · exact hnull.elim
      · rcases List.mem_append.mp hentry with hseen | hrest
        · have hfreed : ∃ context, ∃ free ∈ seen, Freed context free := by
            cases hcontext with
            | answered reply =>
                rw [List.mem_singleton.mp hseen] at hnull
                exact hnull.elim
            | removed hping hfree =>
                obtain ⟨free, hmem, hfree⟩ := hfree
                exact ⟨_, free, List.mem_cons_of_mem _ hmem, hfree⟩
            | replaced hping hfree hconnect hauth =>
                obtain ⟨free, hmem, hfree⟩ := hfree
                exact ⟨_, free, List.mem_cons_of_mem _ hmem, hfree⟩
          obtain ⟨context, free, hmem, hfree⟩ := hfreed
          exact ⟨context, free, List.mem_cons_of_mem _ (List.mem_append_left _ hmem), hfree⟩
        · obtain ⟨context, free, hmem, hfree⟩ := ih hrest
          exact ⟨context, free, List.mem_cons_of_mem _ (List.mem_append_right _ hmem), hfree⟩

/-! ### One turn -/

instance (context : κ) (argv : List Bytes) :
    Nonempty (RedisPoolEffect.redisCommand context argv).Reply := ⟨Except.ok none⟩

instance : Nonempty (RedisPoolEffect.load_b_stop_ : RedisPoolEffect κ).Reply := ⟨true⟩

theorem more_ends {outcome : Option Bool}
    (hends : (do return !(← load_b_stop_) : RedisPoolProgram κ Bool).Ends trace outcome) :
    ∃ stopped : Bool, trace = [⟨.load_b_stop_, stopped⟩] ∧ outcome = some !stopped := by
  obtain ⟨stopped, rest, rfl, hrest⟩ := Program.ends_call_iff_of_nonempty.mp hends
  obtain ⟨rfl, rfl⟩ := Program.ends_ret_iff.mp hrest
  exact ⟨stopped, rfl, rfl⟩

/-- A `PING` that is answered, with a reply or with null, puts the context back. -/
theorem checkOne_ends {outcome : Option (Option κ × Option RedisException)}
    (hends : (checkOne pwd_ context).Ends trace outcome) (hhiredis : ∀ entry ∈ trace, ¬ Throws entry) :
    ∃ reply, trace = [⟨.redisCommand context [ascii "PING"], .ok reply⟩] ∧
      outcome = some (some context, none) := by
  obtain ⟨reply, rest, rfl, hrest⟩ := Program.ends_call_iff_of_nonempty.mp hends
  cases reply with
  | error e => exact absurd trivial (hhiredis _ List.mem_cons_self)
  | ok reply =>
      cases reply with
      | none =>
          obtain ⟨rfl, rfl⟩ := Program.ends_ret_iff.mp hrest
          exact ⟨none, rfl, rfl⟩
      | some reply =>
          obtain ⟨rfl, rfl⟩ := Program.ends_ret_iff.mp hrest
          exact ⟨some reply, rfl, rfl⟩

/-! ### The loop -/

/-- The loop frees nothing, and repairs the pool if there is nothing to repair. -/
theorem turns_ends {passed : Option (Sweep.Passed κ RedisException)}
    (hturns : Sweep.Turns (do return !(← load_b_stop_)) (checkOne pwd_) pool trace passed)
    (hhiredis : ∀ entry ∈ trace, ¬ Throws entry) :
    (∀ entry ∈ trace, ∀ context, ¬ Freed context entry) ∧
      ∃ back left, passed = some ⟨back, left, none⟩ ∧
        ((∀ entry ∈ trace, ¬ NullPing entry) → Repairs pwd_ pool trace back left) := by
  induction hturns with
  | finished => exact ⟨by simp, [], [], rfl, fun _ => .finished⟩
  | unasked hmore =>
      obtain ⟨stopped, -, hnone⟩ := more_ends hmore
      exact absurd hnone (by simp)
  | @stopped context pool asked hmore =>
      obtain ⟨stopped, rfl, hstopped⟩ := more_ends hmore
      obtain rfl : stopped = true := by simpa using hstopped
      exact ⟨by simp [Freed], [], _, rfl, fun _ => .stopped context pool⟩
  | stuck hmore hvisit =>
      obtain ⟨reply, -, hnone⟩ := checkOne_ends hvisit fun entry hmem =>
        hhiredis entry (List.mem_append_right _ hmem)
      exact absurd hnone (by simp)
  | raised hmore hvisit =>
      obtain ⟨reply, -, hraised⟩ := checkOne_ends hvisit fun entry hmem =>
        hhiredis entry (List.mem_append_right _ hmem)
      exact absurd hraised (by simp)
  | @visited context pool asked seen trace back outcome hmore hvisit hrest ih =>
      obtain ⟨stopped, rfl, hstopped⟩ := more_ends hmore
      obtain rfl : stopped = false := by simpa using hstopped
      obtain ⟨reply, rfl, hback⟩ := checkOne_ends hvisit fun entry hmem =>
        hhiredis entry (List.mem_append_right _ (List.mem_append_left _ hmem))
      obtain ⟨rfl, -⟩ := Prod.mk.inj (Option.some.inj hback)
      obtain ⟨hfree, back, left, rfl, hrepairs⟩ := ih fun entry hmem =>
        hhiredis entry (List.mem_append_right _ (List.mem_append_right _ hmem))
      refine ⟨?_, context :: back, left, rfl, fun hanswered => ?_⟩
      · simp only [List.singleton_append, List.forall_mem_cons]
        exact ⟨fun _ => not_false, fun _ => not_false, hfree⟩
      · cases reply with
        | none =>
            exact absurd rfl (hanswered _ (List.mem_cons_of_mem _ List.mem_cons_self))
        | some reply =>
            refine .visited (.answered reply) (hrepairs fun entry hmem => hanswered entry ?_)
            exact List.mem_append_right _ (List.mem_append_right _ hmem)

/-- **When the check repairs the pool.** Exactly if there is nothing to repair: it returns a repaired
pool if and only if no `PING` was answered with null. -/
theorem repairsPool_iff {outcome : Option (List κ × Option RedisException)}
    (hends : (checkThread pwd_ pool).Ends trace outcome)
    (hhiredis : ∀ entry ∈ trace, ¬ Throws entry) :
    RepairsPool pwd_ pool trace outcome ↔ ∀ entry ∈ trace, ¬ NullPing entry := by
  obtain ⟨stopped, rest, rfl, hrest⟩ := Program.ends_call_iff_of_nonempty.mp hends
  cases stopped with
  | true =>
      obtain ⟨rfl, rfl⟩ := Program.ends_ret_iff.mp hrest
      constructor
      · intro _
        simp [NullPing]
      · intro _
        exact .inl ⟨rfl, rfl⟩
  | false =>
      have hloop : (Sweep.loop (do return !(← load_b_stop_)) (checkOne pwd_) emptyFront pool.length
          (pool ++ [])).Ends rest outcome := by
        rw [List.append_nil]
        exact hrest
      obtain ⟨passed, hturns, rfl⟩ := Sweep.turns_of_ends hloop
      obtain ⟨hfree, back, left, rfl, hrepairs⟩ := turns_ends hturns fun entry hmem =>
        hhiredis entry (List.mem_cons_of_mem _ hmem)
      constructor
      · rintro (⟨hstopped, -⟩ | ⟨turns, back', left', hturns', hpool, -⟩) entry hentry hnull
        · rw [hstopped, List.mem_singleton] at hentry
          rw [hentry] at hnull
          exact hnull.elim
        · obtain ⟨-, rfl⟩ := List.cons.inj hturns'
          rcases List.mem_cons.mp hentry with rfl | hmem
          · exact hnull.elim
          · obtain ⟨context, free, hfreeMem, hfreed⟩ := exists_freed_of_repairs hpool hmem hnull
            exact hfree free hfreeMem context hfreed
      · intro hanswered
        refine .inr ⟨rest, back, left, rfl, hrepairs fun entry hmem => ?_, rfl⟩
        exact hanswered entry (List.mem_cons_of_mem _ hmem)

def answeredPings : RedisPoolTrace Nat :=
  [⟨.load_b_stop_, false⟩, ⟨.load_b_stop_, false⟩,
    ⟨.redisCommand 0 [ascii "PING"], .ok (some (redisReply.status "PONG"))⟩, ⟨.load_b_stop_, false⟩,
    ⟨.redisCommand 1 [ascii "PING"], .ok (some (redisReply.status "PONG"))⟩]

def lostPing : RedisPoolTrace Nat :=
  [⟨.load_b_stop_, false⟩, ⟨.load_b_stop_, false⟩, ⟨.redisCommand 0 [ascii "PING"], .ok none⟩]

theorem repairsPool_answeredPings : RepairsPool none [0, 1] answeredPings (some ([0, 1], none)) := by
  have hends : (checkThread none [0, 1]).Ends answeredPings (some ([0, 1], none)) :=
    .call (.call (.call (.call (.call (.ret _)))))
  exact (repairsPool_iff hends (by simp [answeredPings, Throws])).mpr
    (by simp [answeredPings, NullPing])

theorem not_repairsPool_lostPing :
    ¬ ∀ (pwd_ : Option Bytes) (pool : List Nat) (trace : RedisPoolTrace Nat)
        (outcome : Option (List Nat × Option RedisException)),
      (checkThread pwd_ pool).Ends trace outcome → (∀ entry ∈ trace, ¬ Throws entry) →
        RepairsPool pwd_ pool trace outcome := by
  intro hall
  have hends : (checkThread none [0]).Ends lostPing (some ([0], none)) := .call (.call (.call (.ret _)))
  rcases hall _ _ _ _ hends (by simp [lostPing, Throws]) with ⟨hstopped, -⟩ | ⟨turns, back, left, hturns, hpool, -⟩
  · exact absurd (congrArg List.length hstopped) (by simp [lostPing])
  · obtain ⟨-, rfl⟩ := List.cons.inj hturns
    obtain ⟨context, free, hmem, hfreed⟩ := exists_freed_of_repairs hpool
      (List.mem_cons_of_mem _ List.mem_cons_self) rfl
    revert hfreed
    revert free
    simp [Freed]

end RedisConPool

end QuickChat
