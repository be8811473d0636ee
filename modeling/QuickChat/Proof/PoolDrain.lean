import QuickChat.Proof.RedisMgr

/-!
# No operation gives its connection back

Every operation takes one connection and on none of its paths does it call `returnConnection`. So
the pool is whole as long as no operation has returned, and each that has returned has cost it one
connection.
-/

namespace QuickChat

open Text Pool

namespace RedisMgr

variable {κ α β : Type}

theorem keeps_sending {argv : List Bytes} {failure : α}
    {onAnswer : Option redisReply → RedisProgram κ α}
    (honAnswer : ∀ answer, (onAnswer answer).Avoids Touches) :
    Keeps (sending argv failure onAnswer) := by
  intro connect
  cases connect with
  | none => exact trivial
  | some context => exact ⟨id, honAnswer⟩

theorem keeps_execute {argv : List Bytes} {failure : α} {onReply : redisReply → RedisProgram κ α}
    (honReply : ∀ reply, (onReply reply).Avoids Touches) : Keeps (execute argv failure onReply) := by
  rw [execute_eq_sending]
  refine keeps_sending fun answer => ?_
  cases answer with
  | none => exact trivial
  | some reply => exact honReply reply

theorem avoids_nullRead : (nullRead : RedisProgram κ α).Avoids Touches := ⟨id, nofun⟩

theorem avoids_replyText (reply : redisReply) :
    (replyText reply : RedisProgram κ Bytes).Avoids Touches := by
  unfold replyText
  split
  · exact avoids_nullRead
  · exact trivial

theorem keeps_discard {program : RedisProgram κ α} (hprogram : Keeps program) :
    Keeps (discard program) := by
  cases program with
  | ret value => exact hprogram
  | call effect next =>
      cases effect with
      | getConnection =>
          exact fun connection => (hprogram connection).bind fun _ => trivial
      | returnConnection connection => exact hprogram
      | other effect => exact hprogram

theorem keeps_Get (key value : Bytes) : Keeps (Get key value : RedisProgram κ _) := by
  refine keeps_execute fun reply => ?_
  split
  · exact trivial
  · exact (avoids_replyText reply).bind fun _ => trivial

theorem keeps_Auth (password : Bytes) : Keeps (Auth password : RedisProgram κ _) := by
  rw [Auth_eq_sending]
  refine keeps_sending fun answer => ?_
  cases answer with
  | none => exact avoids_nullRead
  | some reply => exact trivial

theorem keeps_popCommand (command : String) (key value : Bytes) :
    Keeps (popCommand command key value : RedisProgram κ _) := by
  refine keeps_execute fun reply => ?_
  split
  · exact trivial
  · exact (avoids_replyText reply).bind fun _ => trivial

theorem keeps_HGet (key hkey : Bytes) : Keeps (HGet key hkey : RedisProgram κ _) := by
  refine keeps_execute fun reply => ?_
  split
  · exact trivial
  · exact avoids_replyText reply

theorem keeps_program (op : RedisOp) : Keeps (op.program : RedisProgram κ Unit) := by
  cases op with
  | Get key value => exact keeps_discard (keeps_Get key value)
  | Set key value =>
      exact keeps_discard (keeps_execute fun reply => (avoids_replyText reply).bind fun _ => trivial)
  | Auth password => exact keeps_discard (keeps_Auth password)
  | LPush key value => exact keeps_discard (keeps_execute fun _ => trivial)
  | LPop key value => exact keeps_discard (keeps_popCommand _ key value)
  | RPush key value => exact keeps_discard (keeps_execute fun _ => trivial)
  | RPop key value => exact keeps_discard (keeps_popCommand _ key value)
  | HSet key hkey value => exact keeps_discard (keeps_execute fun _ => trivial)
  | HSetLen key hkey hvalue hvaluelen => exact keeps_discard (keeps_execute fun _ => trivial)
  | HGet key hkey => exact keeps_discard (keeps_HGet key hkey)
  | Del key => exact keeps_discard (keeps_execute fun _ => trivial)
  | ExistsKey key => exact keeps_discard (keeps_execute fun _ => trivial)

end RedisMgr

/-! ### The pool of RedisMgr -/

abbrev RedisSystem (κ : Type) := System (Option κ) (@RedisEffect.Reply κ) Unit

abbrev RedisEvent (κ : Type) := Event (Option κ) (@RedisEffect.Reply κ) Unit

/-- The connections of a pool that was built with the contexts: each operation that has returned put
back what it took, all contexts are idle when no operation is running, and the pool is only empty
while a running operation has one. -/
structure ConnectionsKept {κ : Type} (contexts : List κ) (system : RedisSystem κ) : Prop where
  returned : ∀ client ∈ system.finished, client.returned.Perm client.taken
  idle : system.clients = [] → system.idle.length = contexts.length
  held : system.idle = [] → contexts ≠ [] →
    ∃ client ∈ system.clients, ¬ client.returned.Perm client.taken

variable {κ : Type}

def redisPool (contexts : List κ) : RedisSystem κ := Pool.start (contexts.map some)

/-- **When the connections are kept.** In every run of operations, with any replies, the pool has its
connections exactly as long as no operation has returned. -/
theorem connectionsKept_iff {contexts : List κ} {events : List (RedisEvent κ)}
    {system : RedisSystem κ} (hevents : ∀ program, .start program ∈ events →
      ∃ op : RedisOp, program = op.program)
    (hrun : Machine.run Pool.step (redisPool contexts) events = some system) :
    ConnectionsKept contexts system ↔ ∀ i, .finish i ∉ events := by
  have hkeeps (program : RedisProgram κ Unit) (hmem : .start program ∈ events) : Keeps program := by
    obtain ⟨op, rfl⟩ := hevents program hmem
    exact RedisMgr.keeps_program op
  have hkeeping := keeping_of_run hkeeps hrun
  constructor
  · intro hkept i hmem
    have hfinished : system.finished ≠ [] := fun h =>
      (finished_eq_nil_iff_of_run hrun).mp h i hmem
    obtain ⟨client, hclient⟩ := List.exists_mem_of_ne_nil _ hfinished
    obtain ⟨htaken, hreturned⟩ := hkeeping.finished client hclient
    have hlength := (hkept.returned client hclient).length_eq
    rw [htaken, hreturned] at hlength
    exact absurd hlength (by simp)
  · intro hfinish
    have hfinished := (finished_eq_nil_iff_of_run hrun).mpr hfinish
    have hperm (hclients : ∀ client ∈ system.clients, client.returned.Perm client.taken) :
        system.idle.Perm (contexts.map some) := by
      refine idle_perm_of_run hrun fun client hclient => hclients client ?_
      rwa [hfinished, List.append_nil] at hclient
    refine ⟨by simp [hfinished], fun hclients => ?_, fun hidle hcontexts => ?_⟩
    · rw [(hperm (by simp [hclients])).length_eq, List.length_map]
    · by_contra hnone
      have hwhole := hperm fun client hclient => by
        by_contra hclientKeeps
        exact hnone ⟨client, hclient, hclientKeeps⟩
      rw [hidle, List.nil_perm, List.map_eq_nil_iff] at hwhole
      exact hcontexts hwhole

/-- With no operation running, each that has returned has cost the pool one connection. -/
theorem idle_add_returned {contexts : List κ} {events : List (RedisEvent κ)}
    {system : RedisSystem κ} (hevents : ∀ program, .start program ∈ events →
      ∃ op : RedisOp, program = op.program)
    (hrun : Machine.run Pool.step (redisPool contexts) events = some system)
    (hclients : system.clients = []) :
    system.idle.length + system.finished.length = contexts.length := by
  have hkeeps (program : RedisProgram κ Unit) (hmem : .start program ∈ events) : Keeps program := by
    obtain ⟨op, rfl⟩ := hevents program hmem
    exact RedisMgr.keeps_program op
  rw [idle_add_finished hkeeps hrun hclients, List.length_map]

def nilAnswer : (effect : RedisEffect κ) → Option effect.Reply
  | .redisCommand _ _ => some (some redisReply.nil)
  | .nullRead => none

theorem connectionsKept_running :
    ∃ system, Machine.run Pool.step (redisPool [1])
        [.start (RedisOp.program (.Get [107] [])), .proceed 0 nilAnswer] = some system ∧
      ConnectionsKept [1] system := by
  obtain ⟨system, hrun⟩ : ∃ system, Machine.run Pool.step (redisPool [1])
      [.start (RedisOp.program (.Get [107] [])), .proceed 0 nilAnswer] = some system := ⟨_, rfl⟩
  refine ⟨system, hrun, (connectionsKept_iff ?_ hrun).mpr (by simp)⟩
  intro program hmem
  simp only [List.mem_cons, Pool.Event.start.injEq, reduceCtorEq, List.not_mem_nil, or_false] at hmem
  exact ⟨_, hmem⟩

/-- One `Get` of a key that is not there, and the one connection of the pool is gone. -/
theorem connections_not_kept :
    ∃ system, Machine.run Pool.step (redisPool [1])
        [.start (RedisOp.program (.Get [107] [])), .proceed 0 nilAnswer, .proceed 0 nilAnswer,
          .finish 0] = some system ∧
      system.clients = [] ∧ system.idle = [] ∧ ¬ ConnectionsKept [1] system := by
  refine ⟨_, rfl, rfl, rfl, fun hkept => ?_⟩
  exact absurd (hkept.idle rfl) (by decide)

end QuickChat
