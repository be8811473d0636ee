import QuickChat.Proof.StatusService

/-!
# When the table of servers survives

`minServer` is a reference to the first entry, so a server with a smaller count is not remembered but
copied over that entry. From then on the name of the first entry is that of another key, no entry has
the lost name any more, and no later call brings it back. A call spares the table exactly when every
entry it looks at has a count that is not below the first one's.
-/

namespace QuickChat

open Text

namespace StatusServiceImpl

def identity (entry : Bytes × ChatServer) : Bytes × Bytes × Bytes × Bytes :=
  (entry.1, entry.2.name, entry.2.host, entry.2.port)

/-- The table has the configured entries, but for their counts. -/
def Intact (config servers_ : ServerTable) : Prop := servers_.map identity = config.map identity

/-- Every key is the name of its entry, and no key occurs twice. -/
structure Configured (config : ServerTable) : Prop where
  nodup : (config.map Prod.fst).Nodup
  name_eq : ∀ entry ∈ config, entry.2.name = entry.1

def loginCount (count_str : Bytes) : Except StdException Int :=
  if count_str = [] then .ok intMax else stoi count_str

/-- Among the names looked up before `stoi` rejects a count, one has a count below `least`. -/
def OvertakenFrom (count : Bytes → Bytes) (least : Int) : List Bytes → Prop
  | [] => False
  | name :: names =>
      match loginCount (count name) with
      | .error _ => False
      | .ok n => n < least ∨ OvertakenFrom count least names

def Overtaken (count : Bytes → Bytes) : List Bytes → Prop
  | [] => False
  | first :: names =>
      match loginCount (count first) with
      | .error _ => False
      | .ok least => OvertakenFrom count least names

theorem loadCount_eq (server : ChatServer) (count_str : Bytes) :
    loadCount server count_str
      = (loginCount count_str).map fun n => { server with con_count := n } := by
  unfold loadCount loginCount
  split
  · rfl
  · cases stoi count_str <;> rfl

theorem map_name_eq {servers_ config : ServerTable} (hintact : Intact config servers_) :
    (servers_.map fun entry => entry.2.name) = config.map fun entry => entry.2.name := by
  have hnames := congrArg (List.map fun fields : Bytes × Bytes × Bytes × Bytes => fields.2.1) hintact
  rw [List.map_map, List.map_map] at hnames
  exact hnames

theorem Configured.map_name (config : ServerTable) (hconfig : Configured config) :
    (config.map fun entry => entry.2.name) = config.map Prod.fst :=
  List.map_congr_left hconfig.name_eq

/-! ### The table that the constructor builds -/

/-- A name that comes again replaces its entry. -/
theorem Configured.insertServer {servers_ : ServerTable} (hservers : Configured servers_)
    (server : ChatServer) : Configured (insertServer servers_ server) := by
  unfold StatusServiceImpl.insertServer
  by_cases hany : servers_.any (·.1 = server.name)
  · rw [if_pos hany]
    refine ⟨?_, fun entry hentry => ?_⟩
    · rw [List.map_map, List.map_congr_left fun entry _ => show _ = entry.1 by
        simp only [Function.comp_apply]
        split <;> rfl]
      exact hservers.nodup
    · obtain ⟨old, hold, rfl⟩ := List.mem_map.mp hentry
      split
      · rename_i hkey
        exact hkey.symm
      · exact hservers.name_eq old hold
  · rw [if_neg hany]
    simp only [List.any_eq_true, decide_eq_true_eq, not_exists, not_and] at hany
    refine ⟨?_, fun entry hentry => ?_⟩
    · rw [List.map_append, List.nodup_append]
      refine ⟨hservers.nodup, List.nodup_singleton _, fun key hkey other hother => ?_⟩
      obtain ⟨entry, hentry, rfl⟩ := List.mem_map.mp hkey
      rw [List.map_singleton, List.mem_singleton] at hother
      exact hother ▸ hany entry hentry
    · rcases List.mem_append.mp hentry with hold | hnew
      · exact hservers.name_eq entry hold
      · rw [List.mem_singleton.mp hnew]

theorem configured_new {cfg : ConfigMgr} {config : ServerTable} (hconfig : config.Perm (new cfg)) :
    Configured config := by
  have hnew : Configured (new cfg) := by
    unfold new
    refine List.foldlRecOn _ _ ⟨List.nodup_nil, by simp⟩ fun servers_ hservers word _ => ?_
    exact hservers.insertServer _
  exact ⟨(hconfig.map Prod.fst).nodup_iff.mpr hnew.nodup,
    fun entry hentry => hnew.name_eq entry (hconfig.mem_iff.mp hentry)⟩

/-! ### The loop -/

section Loop

variable (count : Bytes → Bytes) (minServer : ChatServer) (rest : ServerTable)

theorem visitWith_identity : (visitWith count minServer rest).2.2.map identity = rest.map identity := by
  induction rest generalizing minServer with
  | nil => rfl
  | cons entry rest ih =>
      obtain ⟨key, server⟩ := entry
      rw [visitWith, loadCount_eq]
      by_cases hname : server.name = minServer.name
      · rw [if_pos hname]
        simp [ih]
      · rw [if_neg hname]
        cases loginCount (count server.name) with
        | error e => rfl
        | ok n => simp [Except.map, ih, identity]

theorem visitWith_name : (visitWith count minServer rest).2.1 = minServer ∨
    (visitWith count minServer rest).2.1.name ∈ rest.map fun entry => entry.2.name := by
  induction rest generalizing minServer with
  | nil => exact .inl rfl
  | cons entry rest ih =>
      obtain ⟨key, server⟩ := entry
      rw [visitWith, loadCount_eq]
      by_cases hname : server.name = minServer.name
      · rw [if_pos hname]
        exact (ih minServer).imp_right (List.mem_cons_of_mem _)
      rw [if_neg hname]
      cases loginCount (count server.name) with
      | error e => exact .inl rfl
      | ok n =>
          simp only [Except.map]
          split
          · rcases ih { server with con_count := n } with hsame | hmem
            · rw [hsame]
              exact .inr (by simp)
            · exact .inr (List.mem_cons_of_mem _ hmem)
          · exact (ih minServer).imp_right (List.mem_cons_of_mem _)

variable {count minServer rest} (hnames : ∀ entry ∈ rest, entry.2.name ≠ minServer.name)

include hnames

theorem visitWith_of_not_overtaken
    (hleast : ¬ OvertakenFrom count minServer.con_count (rest.map fun entry => entry.2.name)) :
    (visitWith count minServer rest).2.1 = minServer := by
  induction rest with
  | nil => rfl
  | cons entry rest ih =>
      obtain ⟨key, server⟩ := entry
      rw [visitWith, loadCount_eq, if_neg (hnames _ List.mem_cons_self)]
      rw [List.map_cons, OvertakenFrom] at hleast
      cases hcount : loginCount (count server.name) with
      | error e => rfl
      | ok n =>
          simp only [hcount, not_or] at hleast
          simp only [Except.map, if_neg hleast.1]
          exact ih (fun other hother => hnames other (List.mem_cons_of_mem _ hother)) hleast.2

/-- The first count below the one held overwrites the entry, and no later step brings it back. -/
theorem visitWith_of_overtaken
    (hleast : OvertakenFrom count minServer.con_count (rest.map fun entry => entry.2.name)) :
    (visitWith count minServer rest).2.1.name ∈ rest.map fun entry => entry.2.name := by
  induction rest with
  | nil => exact absurd hleast id
  | cons entry rest ih =>
      obtain ⟨key, server⟩ := entry
      rw [visitWith, loadCount_eq, if_neg (hnames _ List.mem_cons_self)]
      rw [List.map_cons, OvertakenFrom] at hleast
      cases hcount : loginCount (count server.name) with
      | error e => simp [hcount] at hleast
      | ok n =>
          simp only [hcount] at hleast
          simp only [Except.map]
          by_cases hless : n < minServer.con_count
          · rw [if_pos hless]
            rcases visitWith_name count { server with con_count := n } rest with hsame | hmem
            · rw [hsame]
              simp
            · exact List.mem_cons_of_mem _ hmem
          · rw [if_neg hless]
            exact List.mem_cons_of_mem _ (ih
              (fun other hother => hnames other (List.mem_cons_of_mem _ hother))
              (hleast.resolve_left hless))

end Loop

/-! ### A call -/

inductive Tracked (config : ServerTable) (overtaken : Prop) : ServerTable → Prop where
  | empty (hconfig : config = []) (hovertaken : ¬ overtaken) : Tracked config overtaken []
  | kept {key : Bytes} {minServer : ChatServer} {rest : ServerTable}
      (hintact : Intact config ((key, minServer) :: rest)) (hovertaken : ¬ overtaken) :
      Tracked config overtaken ((key, minServer) :: rest)
  | lost {key : Bytes} {minServer first : ChatServer} {rest : ServerTable}
      (hintact : Intact config ((key, first) :: rest))
      (hlost : minServer.name ∈ rest.map fun entry => entry.2.name) (hovertaken : overtaken) :
      Tracked config overtaken ((key, minServer) :: rest)

variable {config servers_ next : ServerTable} {count : Bytes → Bytes} {overtaken : Prop}

theorem Configured.first_ne {key : Bytes} {first : ChatServer} {rest : ServerTable}
    (hconfig : Configured config) (hintact : Intact config ((key, first) :: rest)) :
    ∀ entry ∈ rest, entry.2.name ≠ first.name := by
  have hnames := map_name_eq hintact
  rw [hconfig.map_name] at hnames
  have hnodup := hconfig.nodup
  rw [← hnames, List.map_cons, List.nodup_cons] at hnodup
  intro entry hentry heq
  exact hnodup.1 (heq ▸ List.mem_map_of_mem hentry)

/-- A table loses an entry exactly when its first one has been overwritten. -/
theorem Tracked.intact_iff (hconfig : Configured config)
    (htracked : Tracked config overtaken servers_) : Intact config servers_ ↔ ¬ overtaken := by
  cases htracked with
  | empty hempty hovertaken => simp [hempty, Intact, hovertaken]
  | kept hintact hovertaken => simp [hintact, hovertaken]
  | @lost key minServer first rest hintact hlost hovertaken =>
      refine iff_of_false (fun hstill => ?_) (not_not_intro hovertaken)
      have hnames := (map_name_eq hstill).trans (map_name_eq hintact).symm
      rw [List.map_cons, List.map_cons, List.cons.injEq] at hnames
      obtain ⟨entry, hentry, heq⟩ := List.mem_map.mp hlost
      exact hconfig.first_ne hintact entry hentry (heq.trans hnames.1)

theorem overtaken_iff {key : Bytes} {first : ChatServer} {rest : ServerTable} {n : Int}
    (hconfig : Configured config) (hintact : Intact config ((key, first) :: rest))
    (hcount : loginCount (count first.name) = .ok n) :
    Overtaken count (config.map Prod.fst) ↔
      OvertakenFrom count n (rest.map fun entry => entry.2.name) := by
  rw [← hconfig.map_name, ← map_name_eq hintact, List.map_cons, Overtaken, hcount]

theorem intact_visitWith {key : Bytes} {first minServer : ChatServer} {rest : ServerTable} {n : Int}
    (hintact : Intact config ((key, first) :: rest)) :
    Intact config ((key, { first with con_count := n }) ::
      (visitWith count minServer rest).2.2) := by
  rw [Intact, List.map_cons, visitWith_identity, ← hintact]
  rfl

/-- **One call.** It keeps the table intact, or overtakes the first entry for good. -/
theorem Tracked.select (hconfig : Configured config) (htracked : Tracked config overtaken servers_)
    {selected : Except StdException ChatServer}
    (hselect : selectWith count servers_ = some (selected, next)) :
    Tracked config (overtaken ∨ Overtaken count (config.map Prod.fst)) next := by
  cases htracked with
  | empty => exact absurd hselect (by simp [selectWith])
  | @kept key first rest hintact hovertaken =>
      rw [selectWith, loadCount_eq] at hselect
      cases hcount : loginCount (count first.name) with
      | error e =>
          simp only [hcount, Except.map, Option.some.injEq, Prod.mk.injEq] at hselect
          rw [← hselect.2]
          refine .kept hintact (not_or_intro hovertaken ?_)
          rw [← hconfig.map_name, ← map_name_eq hintact, List.map_cons, Overtaken, hcount]
          exact id
      | ok n =>
          simp only [hcount, Except.map, Option.some.injEq, Prod.mk.injEq] at hselect
          rw [← hselect.2]
          have hfirst : ∀ entry ∈ rest,
              entry.2.name ≠ ({ first with con_count := n } : ChatServer).name :=
            hconfig.first_ne hintact
          have hiff := overtaken_iff hconfig hintact hcount
          by_cases hleast : OvertakenFrom count n (rest.map fun entry => entry.2.name)
          · refine .lost (intact_visitWith (n := n) hintact) ?_ (.inr (hiff.mpr hleast))
            rw [map_name_eq (visitWith_identity count { first with con_count := n } rest)]
            exact visitWith_of_overtaken hfirst hleast
          · rw [visitWith_of_not_overtaken hfirst hleast]
            exact .kept (intact_visitWith hintact) (not_or_intro hovertaken fun h => hleast (hiff.mp h))
  | @lost key minServer first rest hintact hlost hovertaken =>
      rw [selectWith, loadCount_eq] at hselect
      cases hcount : loginCount (count minServer.name) with
      | error e =>
          simp only [hcount, Except.map, Option.some.injEq, Prod.mk.injEq] at hselect
          rw [← hselect.2]
          exact .lost hintact hlost (.inl hovertaken)
      | ok n =>
          simp only [hcount, Except.map, Option.some.injEq, Prod.mk.injEq] at hselect
          rw [← hselect.2]
          refine .lost (intact_visitWith (n := first.con_count) hintact) ?_ (.inl hovertaken)
          rw [map_name_eq (visitWith_identity count { minServer with con_count := n } rest)]
          rcases visitWith_name count { minServer with con_count := n } rest with hsame | hmem
          · rw [hsame]
            exact hlost
          · exact hmem

end StatusServiceImpl

/-! ### Every run -/

namespace StatusServer

open StatusServiceImpl

def EverOvertaken (config : ServerTable) (server : StatusServer) : Prop :=
  ∃ redis ∈ server.found, Overtaken (redis.hashText LOGIN_COUNT) (config.map Prod.fst)

/-- Once overwritten, an entry stays so, whatever later calls do. -/
theorem tracked_step {config : ServerTable} (hconfig : Configured config)
    {server next : StatusServer} {call : StatusCall}
    (htracked : Tracked config (EverOvertaken config server) server.servers_)
    (hstep : step server call = some next) :
    Tracked config (EverOvertaken config next) next.servers_ := by
  cases call with
  | GetChatServer uid uuid =>
      simp only [step, run_GetChatServer, Option.map_map, Option.map_eq_some_iff] at hstep
      obtain ⟨⟨selected, servers_⟩, hselect, hnext⟩ := hstep
      have hservers : next.servers_ = servers_ ∧ next.found = server.found ++ [server.redis] := by
        cases selected <;> exact hnext ▸ ⟨rfl, rfl⟩
      have hfound : EverOvertaken config next = (EverOvertaken config server ∨
          Overtaken (server.redis.hashText LOGIN_COUNT) (config.map Prod.fst)) := by
        simp [EverOvertaken, hservers.2, or_and_right, exists_or]
      rw [hservers.1, hfound]
      exact htracked.select hconfig hselect
  | Login uid token =>
      simp only [step, Option.map_eq_some_iff] at hstep
      obtain ⟨⟨rsp, redis⟩, -, rfl⟩ := hstep
      exact htracked
  | loginCount entry =>
      rw [step, Option.some.injEq] at hstep
      exact hstep ▸ htracked

/-- **When the table survives.** After every run of calls on the constructor's table, in any order of
iteration and with the login counts changing in any way, the table is the configured one but for the
counts if and only if no call found, before a count that `stoi` rejects, one below the first
entry's. -/
theorem servers_intact_iff {cfg : ConfigMgr} {config : ServerTable} (hconfig : config.Perm (new cfg))
    {redis : Redis} {calls : List StatusCall} {server : StatusServer}
    (hrun : Machine.run step (start config redis) calls = some server) :
    Intact config server.servers_ ↔
      ∀ redis ∈ server.found, ¬ Overtaken (redis.hashText LOGIN_COUNT) (config.map Prod.fst) := by
  have hstart : Tracked config (EverOvertaken config (start config redis)) config := by
    cases config with
    | nil => exact .empty rfl (by simp [EverOvertaken, start])
    | cons entry rest => exact .kept rfl (by simp [EverOvertaken, start])
  have htracked := Machine.run_invariant (P := fun server =>
      Tracked config (EverOvertaken config server) server.servers_) hstart
    (fun _ _ _ hstate hstep => tracked_step (configured_new hconfig) hstate hstep) hrun
  rw [htracked.intact_iff (configured_new hconfig), EverOvertaken]
  push Not
  rfl

def twoServers : ConfigMgr := ⟨[
  (ascii "chatservers", [(ascii "Name", ascii "A,B")]),
  (ascii "A", [(ascii "Name", ascii "A"), (ascii "Host", ascii "a"), (ascii "Port", ascii "1")]),
  (ascii "B", [(ascii "Name", ascii "B"), (ascii "Host", ascii "b"), (ascii "Port", ascii "2")])]⟩

def counts (a b : Bytes) : RedisValue × Option Nat :=
  (.hash fun field => if field = ascii "A" then some a else if field = ascii "B" then some b else none,
    none)

theorem servers_intact_greater :
    ∃ server, Machine.run step (start (new twoServers) Redis.init)
        [.loginCount (some (counts (ascii "1") (ascii "5"))),
          .GetChatServer 1 ⟨List.replicate 16 0, rfl⟩] = some server ∧
      Intact (new twoServers) server.servers_ := by
  obtain ⟨server, hrun⟩ : ∃ server, Machine.run step (start (new twoServers) Redis.init)
      [.loginCount (some (counts (ascii "1") (ascii "5"))),
        .GetChatServer 1 ⟨List.replicate 16 0, rfl⟩] = some server := ⟨_, rfl⟩
  refine ⟨server, hrun, (servers_intact_iff (List.Perm.refl _) hrun).mpr ?_⟩
  obtain rfl := Option.some.inj hrun
  intro redis hredis hovertaken
  rw [List.mem_singleton.mp hredis] at hovertaken
  exact absurd (show (5 : Int) < 1 ∨ False from hovertaken) (by decide)

/-- B has the smaller count, and takes the place of A. -/
theorem servers_lost_smaller :
    ∃ server, Machine.run step (start (new twoServers) Redis.init)
        [.loginCount (some (counts (ascii "5") (ascii "1"))),
          .GetChatServer 1 ⟨List.replicate 16 0, rfl⟩] = some server ∧
      ¬ Intact (new twoServers) server.servers_ := by
  refine ⟨_, rfl, ?_⟩
  unfold Intact
  decide

end StatusServer

end QuickChat
