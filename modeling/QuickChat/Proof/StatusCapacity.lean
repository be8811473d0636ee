import Mathlib.Algebra.Order.BigOperators.Group.List
import QuickChat.Lib.Spend
import QuickChat.Status.StatusPool

/-!
# How many users the status service can serve

Every Redis operation of a call takes a context and puts none back. A `GetChatServer` call that
returns a server has looked up the login count of the first server at least, and has set a token;
where the servers have different names, it has looked up the count of each. So the contexts of the
pool are a bound on what the service does in its lifetime.
-/

namespace QuickChat

open Monitor Text

variable {κ α : Type}

/-! ### What the operations take -/

namespace RedisMgr

theorem spends_nullRead {Q : Nat → α → Prop} {taken : Nat} :
    Spends Q (nullRead : RedisProgram κ α) taken := ⟨rfl, nofun⟩

theorem spends_redisCommand {connect : Option κ} {argv : List Bytes}
    {Q : Nat → Option redisReply → Prop} {taken : Nat} (hanswer : ∀ answer, Q taken answer) :
    Spends Q (redisCommand connect argv) taken := ⟨rfl, fun answer _ => ⟨rfl, hanswer answer⟩⟩

theorem spends_execute {argv : List Bytes} {failure : α} {onReply : redisReply → RedisProgram κ α}
    {Q : Nat → α → Prop} {taken : Nat} (hfailure : Q (taken + 1) failure)
    (hreply : ∀ reply, Spends Q (onReply reply) (taken + 1)) :
    Spends Q (execute argv failure onReply) taken := by
  refine spends_bind (spends_getConnection fun connect => ?_)
  cases connect with
  | none => exact spends_ret hfailure
  | some context =>
      refine spends_bind (spends_redisCommand fun answer => ?_)
      cases answer with
      | none => exact spends_ret hfailure
      | some reply => exact hreply reply

theorem spends_replyText {reply : redisReply} {Q : Nat → Bytes → Prop} {taken : Nat}
    (hQ : ∀ str, Q taken str) : Spends Q (replyText reply : RedisProgram κ Bytes) taken := by
  unfold replyText
  split
  · exact spends_nullRead
  · exact spends_ret (hQ _)

theorem spends_HGet {key hkey : Bytes} {Q : Nat → Bytes → Prop} {taken : Nat}
    (hQ : ∀ str, Q (taken + 1) str) : Spends Q (HGet key hkey : RedisProgram κ Bytes) taken := by
  refine spends_execute (hQ _) fun reply => ?_
  split
  · exact spends_ret (hQ _)
  · exact spends_replyText hQ

theorem spends_Get {key value : Bytes} {Q : Nat → Bool × Bytes → Prop} {taken : Nat}
    (hQ : ∀ answer, Q (taken + 1) answer) :
    Spends Q (Get key value : RedisProgram κ (Bool × Bytes)) taken := by
  refine spends_execute (hQ _) fun reply => ?_
  split
  · exact spends_ret (hQ _)
  · exact spends_bind (spends_replyText fun str => spends_ret (hQ _))

theorem spends_Set {key value : Bytes} {Q : Nat → Bool → Prop} {taken : Nat}
    (hQ : ∀ done, Q (taken + 1) done) : Spends Q (Set key value : RedisProgram κ Bool) taken :=
  spends_execute (hQ _) fun _ => spends_bind (spends_replyText fun _ => spends_ret (hQ _))

end RedisMgr

/-! ### What the calls take -/

namespace StatusServiceImpl

open RedisMgr

def Distinct (servers : List ChatServer) : Prop := (servers.map ChatServer.name).Nodup

instance (servers : List ChatServer) : Decidable (Distinct servers) :=
  inferInstanceAs (Decidable (List.Nodup _))

theorem name_of_loadCount {server loaded : ChatServer} {count_str : Bytes}
    (hload : loadCount server count_str = .ok loaded) : loaded.name = server.name := by
  unfold loadCount at hload
  split at hload
  · exact Except.ok.inj hload ▸ rfl
  · cases hstoi : stoi count_str with
    | error e => simp [hstoi, bind, Except.bind] at hload
    | ok count =>
        simp only [hstoi, bind, Except.bind, pure, Except.pure, Except.ok.injEq] at hload
        exact hload ▸ rfl

/-- The loop takes a context for every entry whose name differs from that of the smallest so far. -/
theorem spends_visit (minServer : ChatServer) (rest : ServerTable) (taken : Nat) :
    Spends (fun after result => taken ≤ after ∧ (Distinct (minServer :: rest.map Prod.snd) →
        result.1 = .ok () → after = taken + rest.length))
      (visit minServer rest : RedisProgram κ _) taken := by
  induction rest generalizing minServer taken with
  | nil => exact spends_ret ⟨le_rfl, fun _ _ => rfl⟩
  | cons entry rest ih =>
      obtain ⟨key, server⟩ := entry
      unfold visit
      by_cases hname : server.name = minServer.name
      · rw [if_pos hname]
        refine spends_bind ((ih minServer taken).mono fun after result hafter => ?_)
        refine spends_ret ⟨hafter.1, fun hdistinct _ => ?_⟩
        simp [Distinct, hname] at hdistinct
      · rw [if_neg hname]
        refine spends_bind (spends_HGet fun count_str => ?_)
        cases hload : loadCount server count_str with
        | error e => exact spends_ret ⟨Nat.le_succ _, fun _ hok => absurd hok (by simp)⟩
        | ok loaded =>
            dsimp only
            refine spends_bind ((ih _ (taken + 1)).mono fun after result hafter => ?_)
            refine spends_ret ⟨(Nat.le_succ _).trans hafter.1, fun hdistinct hok => ?_⟩
            have hloaded := name_of_loadCount hload
            have hrest : Distinct ((if loaded.con_count < minServer.con_count then loaded
                else minServer) :: rest.map Prod.snd) := by
              simp only [Distinct, List.map_cons, List.nodup_cons, List.mem_cons, not_or] at hdistinct ⊢
              split
              · rw [hloaded]
                exact hdistinct.2
              · exact ⟨hdistinct.1.2, hdistinct.2.2⟩
            rw [hafter.2 hrest hok, List.length_cons]
            omega

/-- What a table costs a call that returns one of its servers, without the token. -/
def lookups (servers_ : ServerTable) : Nat :=
  if Distinct (servers_.map Prod.snd) then servers_.length else 1

/-- A lookup for each server, where their names keep it from skipping any. -/
theorem spends_getChatServer (servers_ : ServerTable) (taken : Nat) :
    Spends (fun after result => taken + 1 ≤ after ∧
        ∀ server, result.1 = .ok server → Distinct (servers_.map Prod.snd) →
          after = taken + servers_.length)
      (getChatServer servers_ : RedisProgram κ _) taken := by
  cases servers_ with
  | nil => exact spends_nullRead
  | cons entry rest =>
      obtain ⟨key, minServer⟩ := entry
      unfold getChatServer
      refine spends_bind (spends_HGet fun count_str => ?_)
      cases hload : loadCount minServer count_str with
      | error e => exact spends_ret ⟨le_rfl, fun _ hok => absurd hok (by simp)⟩
      | ok loaded =>
          dsimp only
          refine spends_bind ((spends_visit loaded rest (taken + 1)).mono fun after result hafter => ?_)
          refine spends_ret ⟨hafter.1, fun server hok hdistinct => ?_⟩
          have hresult : result.1 = .ok () := by
            cases hfirst : result.1 with
            | error e => simp [hfirst, Except.map] at hok
            | ok value => rfl
          have hsame : Distinct (loaded :: rest.map Prod.snd) := by
            simpa [Distinct, name_of_loadCount hload] using hdistinct
          rw [hafter.2 hsame hresult, List.length_cons]
          omega

end StatusServiceImpl

/-- The least that a call has taken which has returned the reply. -/
def StatusOp.cost : StatusOp → StatusReply → Nat
  | GetChatServer servers_ _ _, .GetChatServer _ (.ok _) => StatusServiceImpl.lookups servers_ + 1
  | _, _ => 1

/-- `GetChatServer` takes one more for the token, and `Login` its one. -/
theorem StatusOp.spends_program (op : StatusOp) :
    Spends (fun after reply => op.cost reply ≤ after) (op.program : RedisProgram κ StatusReply) 0 := by
  cases op with
  | GetChatServer servers_ uid uuid =>
      unfold program StatusServiceImpl.GetChatServer
      refine spends_bind (spends_bind ((StatusServiceImpl.spends_getChatServer servers_ 0).mono ?_))
      rintro after ⟨result, servers_'⟩ ⟨hone, hall⟩
      cases result with
      | error e => exact spends_ret (spends_ret (by simpa [cost] using hone))
      | ok server =>
          have hlookups : StatusServiceImpl.lookups servers_ ≤ after := by
            unfold StatusServiceImpl.lookups
            split
            · rename_i hdistinct
              exact (hall server rfl hdistinct).ge.trans' (by omega)
            · omega
          refine spends_bind (spends_bind (RedisMgr.spends_Set fun _ => spends_ret ?_))
          refine spends_ret (spends_ret ?_)
          simp only [cost]
          omega
  | Login uid token =>
      unfold program StatusServiceImpl.Login
      refine spends_bind (spends_bind (RedisMgr.spends_Get fun answer => ?_))
      obtain ⟨success, token_value⟩ := answer
      dsimp only
      split
      · exact spends_ret (spends_ret (by simp [cost]))
      · split
        · exact spends_ret (spends_ret (by simp [cost]))
        · exact spends_ret (spends_ret (by simp [cost]))

/-! ### The bound -/

namespace StatusPool

variable {contexts : List κ} {pool : StatusPool κ} {events : List (StatusPoolEvent κ)}

def cost (call : StatusPoolCall κ) : Nat := (call.reply?.map call.op.cost).getD 0

/-- **The capacity of the service.** In every run, what the calls that have returned have cost is no
more than the contexts of the pool, less those that are idle. -/
theorem capacity (hrun : Machine.run step (new contexts) events = some pool) :
    pool.idle.length + (pool.finished.map cost).sum ≤ contexts.length := by
  have hspent := idle_add_spent StatusOp.spends_program hrun
  have hcost : (pool.finished.map cost).sum ≤ (pool.finished.map Call.spent).sum := by
    refine List.sum_le_sum fun call hcall => ?_
    obtain ⟨reply, hstatus, hle⟩ := cost_of_finished StatusOp.spends_program hrun call hcall
    have hreply : StatusPoolCall.reply? call = some reply := by rw [StatusPoolCall.reply?, hstatus]
    rw [cost, hreply]
    exact hle
  rw [List.length_map] at hspent
  omega

def uuid : Uuid := ⟨(List.range 16).map UInt8.ofNat, by rw [List.length_map, List.length_range]⟩

def twoServers : ServerTable :=
  [([97], ⟨[97], [49], [97], 0⟩), ([98], ⟨[98], [50], [98], 0⟩)]

def withoutCounts : (effect : RedisEffect Nat) → Option effect.Reply
  | .redisCommand _ argv =>
      if argv.head? = some (ascii "HGET") then some (some redisReply.nil)
      else some (some (redisReply.status "OK"))
  | .nullRead => none

/-- Of five contexts a call over two servers leaves two. -/
theorem capacity_two_servers :
    ∃ pool, Machine.run step (new (List.range 5))
        (.start (.GetChatServer twoServers 7 uuid) :: List.replicate 6 (.proceed 0 withoutCounts 0) ++
          [.finish 0]) = some pool ∧
      pool.finished.map cost = [3] ∧
      pool.idle.length + (pool.finished.map cost).sum ≤ (List.range 5).length := by
  obtain ⟨pool, hrun, hcosts⟩ := Option.map_eq_some_iff.mp
    (show (Machine.run step (new (List.range 5))
        (.start (.GetChatServer twoServers 7 uuid) :: List.replicate 6 (.proceed 0 withoutCounts 0) ++
          [.finish 0])).map (fun pool => pool.finished.map cost) = some [3] from rfl)
  exact ⟨pool, hrun, hcosts, capacity hrun⟩

end StatusPool

end QuickChat
