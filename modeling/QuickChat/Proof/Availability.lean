import QuickChat.Proof.Replies
import QuickChat.Proof.Selection

/-!
# When GetChatServer answers

A call has a server to give if the configuration lists one, and gets to the end if there is a context
for each of its commands and every reply is legible to it: a count that is not there or that `stoi`
accepts, and for the token a reply with a text. Nothing else can go wrong, whatever the configuration
and whatever earlier calls have left in the table.

How many counts a call looks up depends on the names in the table, which an earlier call may have made
equal, and on the counts that it finds.
-/

namespace QuickChat

open Text StatusServiceImpl

/-! ### Legible replies -/

/-- For an `HGET`: nothing, nil, or a text that is no count or one that `stoi` accepts. -/
def LegibleCount (reply : Option redisReply) : Prop :=
  ∀ sent ∈ reply, sent.type = .NIL ∨ ∃ str n, sent.str = some str ∧ loginCount (c_str str) = .ok n

def LegibleStatus (reply : Option redisReply) : Prop := ∀ sent ∈ reply, sent.str ≠ none

def replyCount (reply : Option redisReply) : Option Int :=
  (RedisMgr.hgetText reply).bind fun text => (loginCount text).toOption

theorem legibleCount_iff {reply : Option redisReply} :
    LegibleCount reply ↔ ∃ n, replyCount reply = some n := by
  unfold LegibleCount replyCount
  cases reply with
  | none => exact iff_of_true (by simp) ⟨intMax, rfl⟩
  | some sent =>
      simp only [Option.mem_some_iff, forall_eq', RedisMgr.hgetText]
      by_cases hnil : sent.type = .NIL
      · rw [if_pos hnil]
        exact iff_of_true (.inl hnil) ⟨intMax, rfl⟩
      · rw [if_neg hnil, or_iff_right hnil]
        cases sent.str with
        | none => simp
        | some str => cases hcount : loginCount (c_str str) <;> simp [hcount, Except.toOption]

namespace StatusServiceImpl

def countAt (replies : Nat → Option redisReply) (sent : Nat) : Int := (replyCount (replies sent)).getD 0

/-- How many counts have been looked up behind the loop, when it starts after so many. -/
def lookedUp (count : Nat → Int) : ChatServer → ServerTable → Nat → Nat
  | _, [], sent => sent
  | minServer, (_, server) :: rest, sent =>
      if server.name = minServer.name then lookedUp count minServer rest sent
      else
        lookedUp count (if count sent < minServer.con_count then
          { server with con_count := count sent } else minServer) rest (sent + 1)

def lookedUpAll (count : Nat → Int) : ServerTable → Nat
  | [] => 0
  | (_, first) :: rest => lookedUp count { first with con_count := count 0 } rest 1

/-- For each lookup there is a context and a legible reply, and so there is for the token. -/
structure Supplied (contexts : Nat) (replies : Nat → Option redisReply) (servers_ : ServerTable) :
    Prop where
  counts : ∀ sent < lookedUpAll (countAt replies) servers_, LegibleCount (replies sent)
  status : LegibleStatus (replies (lookedUpAll (countAt replies) servers_))
  contexts : lookedUpAll (countAt replies) servers_ < contexts

theorem le_lookedUp (count : Nat → Int) (minServer : ChatServer) (rest : ServerTable) (sent : Nat) :
    sent ≤ lookedUp count minServer rest sent := by
  induction rest generalizing minServer sent with
  | nil => exact le_rfl
  | cons entry rest ih =>
      rw [lookedUp]
      split
      · exact ih _ _
      · exact (Nat.le_succ sent).trans (ih _ _)

/-- Servers with different names are looked up once each, in whatever order their counts are. -/
theorem lookedUp_of_distinct (count : Nat → Int) {minServer : ChatServer} {rest : ServerTable}
    (hdistinct : Distinct (minServer :: rest.map Prod.snd)) (sent : Nat) :
    lookedUp count minServer rest sent = sent + rest.length := by
  induction rest generalizing minServer sent with
  | nil => rfl
  | cons entry rest ih =>
      obtain ⟨key, server⟩ := entry
      simp only [Distinct, List.map_cons, List.nodup_cons, List.mem_cons, not_or] at hdistinct
      have hnext : Distinct ((if count sent < minServer.con_count then
          { server with con_count := count sent } else minServer) :: rest.map Prod.snd) := by
        simp only [Distinct, List.map_cons, List.nodup_cons]
        split
        · exact hdistinct.2
        · exact ⟨hdistinct.1.2, hdistinct.2.2⟩
      rw [lookedUp, if_neg (Ne.symm hdistinct.1.1), ih hnext, List.length_cons]
      omega

theorem lookedUpAll_of_configured (count : Nat → Int) {servers_ : ServerTable}
    (hservers : Configured servers_) : lookedUpAll count servers_ = servers_.length := by
  cases servers_ with
  | nil => rfl
  | cons entry rest =>
      obtain ⟨key, first⟩ := entry
      have hdistinct : Distinct (({ first with con_count := count 0 } : ChatServer) ::
          rest.map Prod.snd) := hservers.distinct
      rw [lookedUpAll, lookedUp_of_distinct count hdistinct, List.length_cons, Nat.add_comm]

/-! ### A call with its replies -/

open RedisMgr

variable {replies : Nat → Option redisReply} {contexts sent : Nat} {config : ServerTable}

/-- A legible reply gives a text with the count. Any other gives none, or one that `stoi` rejects. -/
theorem hgetText_cases (reply : Option redisReply) :
    (∃ text n, LegibleCount reply ∧ hgetText reply = some text ∧ replyCount reply = some n ∧
        loginCount text = .ok n) ∨
      ¬ LegibleCount reply ∧ ∀ text, hgetText reply = some text → ∃ e, loginCount text = .error e := by
  rw [legibleCount_iff, replyCount]
  cases hgetText reply with
  | none => simp
  | some text => cases hcount : loginCount text <;> simp [hcount, Except.toOption]

/-- A lookup and what follows it. It needs a context and a legible reply, where a count that `stoi`
rejects is the end. -/
theorem returns_lookup_iff {α : Type} {name : Bytes} {Q : α → Prop} {second : Bytes → RedisProgram Unit α}
    (program : RedisProgram Unit α) {final : ConPool Unit × Nat}
    (herror : ∀ text e state, loginCount text = .error e → ¬ Returns replies (second text) Q state final)
    (hok : ∀ text, loginCount text = .ok (countAt replies sent) → second text = program) :
    Returns replies (HGet LOGIN_COUNT name >>= second) Q (RedisConPool.idle contexts, sent) final ↔
      contexts ≠ 0 ∧ LegibleCount (replies sent) ∧
        Returns replies program Q (RedisConPool.idle (contexts - 1), sent + 1) final := by
  rw [returns_bind, runReplies_HGet]
  by_cases hnone : contexts = 0
  · simp [hnone]
  rw [if_neg hnone, and_iff_right hnone]
  simp only [Option.map_eq_some_iff]
  rcases hgetText_cases (replies sent) with ⟨text, n, hlegible, htext, hreply, hcount⟩ |
    ⟨hillegible, hrejected⟩
  · have hprogram : second text = program := by
      apply hok
      rw [hcount, countAt, hreply, Option.getD_some]
    rw [and_iff_right hlegible, htext]
    constructor
    · rintro ⟨_, _, ⟨_, hsome, heq⟩, hreturns⟩
      obtain rfl := Option.some.inj hsome
      obtain ⟨rfl, rfl⟩ := Prod.mk.inj heq
      rwa [hprogram] at hreturns
    · intro hreturns
      exact ⟨text, _, ⟨text, rfl, rfl⟩, by rwa [hprogram]⟩
  · refine iff_of_false ?_ fun hall => hillegible hall.1
    rintro ⟨_, _, ⟨text, hsome, heq⟩, hreturns⟩
    obtain ⟨rfl, rfl⟩ := Prod.mk.inj heq
    obtain ⟨e, hcount⟩ := hrejected text hsome
    exact herror text e _ hcount hreturns

/-- **The loop with its replies.** It gets past the last entry exactly if every lookup had a context and
a legible reply, and then it has made so many. -/
theorem returns_visit_iff {minServer : ChatServer} {rest : ServerTable}
    {final : ConPool Unit × Nat} :
    Returns replies (visit minServer rest) (fun value => value.1 = .ok ())
        (RedisConPool.idle contexts, sent) final ↔
      (∀ k, sent ≤ k → k < lookedUp (countAt replies) minServer rest sent → LegibleCount (replies k)) ∧
        lookedUp (countAt replies) minServer rest sent ≤ sent + contexts ∧
        final = (RedisConPool.idle
            (sent + contexts - lookedUp (countAt replies) minServer rest sent),
          lookedUp (countAt replies) minServer rest sent) := by
  induction rest generalizing minServer contexts sent with
  | nil =>
      rw [lookedUp, Nat.add_sub_cancel_left]
      refine returns_pure.trans ⟨fun hfinal => ?_, fun hall => ⟨rfl, hall.2.2.symm⟩⟩
      exact ⟨fun k hle hlt => absurd hle (not_le.mpr hlt), Nat.le_add_right _ _, hfinal.2.symm⟩
  | cons entry rest ih =>
      obtain ⟨key, server⟩ := entry
      rw [visit, lookedUp]
      by_cases hname : server.name = minServer.name
      · rw [if_pos hname, if_pos hname]
        exact (returns_map (f := fun value : Except StdException Unit × ChatServer × ServerTable =>
          (value.1, value.2.1, (key, server) :: value.2.2))).trans ih
      rw [if_neg hname, if_neg hname]
      refine (returns_lookup_iff (visit (if countAt replies sent < minServer.con_count then
          { server with con_count := countAt replies sent } else minServer) rest >>= fun value =>
        pure (value.1, value.2.1, (key, { server with con_count := countAt replies sent }) :: value.2.2))
        ?_ ?_).trans ?_
      · intro text e state hcount hreturns
        rw [loadCount_eq, hcount] at hreturns
        exact absurd (returns_pure.mp hreturns).1 (by simp)
      · intro text hcount
        rw [loadCount_eq, hcount]
        rfl
      generalize (if countAt replies sent < minServer.con_count then
        { server with con_count := countAt replies sent } else minServer) = following
      have hmore := le_lookedUp (countAt replies) following rest (sent + 1)
      rw [returns_map (f := fun value : Except StdException Unit × ChatServer × ServerTable =>
        (value.1, value.2.1, (key, { server with con_count := countAt replies sent }) :: value.2.2)), ih]
      cases contexts with
      | zero => exact iff_of_false (fun hall => hall.1 rfl) fun hall => by omega
      | succ contexts =>
          rw [and_iff_right (Nat.succ_ne_zero _), Nat.add_sub_cancel, ← and_assoc,
            show sent + (contexts + 1) = sent + 1 + contexts by omega]
          refine and_congr_left fun _ => ⟨fun hall k hle hlt => ?_, fun hall => ⟨?_, ?_⟩⟩
          · rcases hle.eq_or_lt with rfl | hlt'
            · exact hall.1
            · exact hall.2 k hlt' hlt
          · exact hall sent le_rfl hmore
          · exact fun k hle hlt => hall k (by omega) hlt

/-- **One selection.** It gets on exactly if the table has an entry, and each lookup a context and a
legible reply. -/
theorem returns_getChatServer_iff {servers_ : ServerTable} {final : ConPool Unit × Nat} :
    Returns replies (getChatServer servers_) (fun value => ∃ server, value.1 = .ok server)
        (RedisConPool.idle contexts, 0) final ↔
      servers_ ≠ [] ∧
        (∀ k < lookedUpAll (countAt replies) servers_, LegibleCount (replies k)) ∧
        lookedUpAll (countAt replies) servers_ ≤ contexts ∧
        final = (RedisConPool.idle (contexts - lookedUpAll (countAt replies) servers_),
          lookedUpAll (countAt replies) servers_) := by
  cases servers_ with
  | nil =>
      refine iff_of_false ?_ fun hall => hall.1 rfl
      rintro ⟨_, _, hsome⟩
      cases hsome
  | cons entry rest =>
      obtain ⟨key, first⟩ := entry
      rw [and_iff_right (List.cons_ne_nil _ _), getChatServer, lookedUpAll]
      refine (returns_lookup_iff (visit { first with con_count := countAt replies 0 } rest >>=
        fun value => pure (value.1.map fun _ => value.2.1, (key, value.2.1) :: value.2.2)) ?_ ?_).trans ?_
      · intro text e state hcount hreturns
        rw [loadCount_eq, hcount] at hreturns
        exact absurd (returns_pure.mp hreturns).1 (by simp)
      · intro text hcount
        rw [loadCount_eq, hcount]
        rfl
      generalize ({ first with con_count := countAt replies 0 } : ChatServer) = minServer
      have hmore := le_lookedUp (countAt replies) minServer rest 1
      rw [returns_map (f := fun value : Except StdException Unit × ChatServer × ServerTable =>
        (value.1.map fun _ => value.2.1, (key, value.2.1) :: value.2.2))]
      have hok (value : Except StdException Unit × ChatServer × ServerTable) :
          (∃ server, value.1.map (fun _ => value.2.1) = .ok server) ↔ value.1 = .ok () := by
        cases value.1 <;> simp [Except.map]
      simp only [hok]
      rw [returns_visit_iff]
      cases contexts with
      | zero => exact iff_of_false (fun hall => hall.1 rfl) fun hall => by omega
      | succ contexts =>
          rw [and_iff_right (Nat.succ_ne_zero _), Nat.add_sub_cancel, ← and_assoc, Nat.zero_add,
            Nat.add_comm 1 contexts]
          refine and_congr_left fun _ => ⟨fun hall k hlt => ?_, fun hall => ⟨?_, ?_⟩⟩
          · rcases Nat.eq_zero_or_pos k with rfl | hpos
            · exact hall.1
            · exact hall.2 k hpos hlt
          · exact hall 0 (by omega)
          · exact fun k _ hlt => hall k hlt

/-- **One call with its replies.** It returns a reply exactly if the table has a server and the call is
supplied. -/
theorem returns_GetChatServer_iff {servers_ : ServerTable} {uid : Int32} {uuid : Uuid} :
    (∃ final, Returns replies (GetChatServer servers_ uid uuid) (fun value => ∃ rsp, value.1 = .ok rsp)
        (RedisConPool.idle contexts, 0) final) ↔
      servers_ ≠ [] ∧ Supplied contexts replies servers_ := by
  have hselect {final : ConPool Unit × Nat} :=
    @returns_getChatServer_iff replies contexts servers_ final
  have htoken (rsp : GetChatServerRsp) (next : ServerTable) {state final : ConPool Unit × Nat} :
      Returns replies (insertToken uid rsp.token >>= fun _ => pure (.ok rsp, next))
          (fun value : Except StdException GetChatServerRsp × ServerTable => ∃ rsp, value.1 = .ok rsp)
          state final ↔
        Returns replies (Set (token_key uid) rsp.token) (fun _ => True) state final := by
    rw [insertToken, returns_map, returns_map]
    exact exists_congr fun value => and_congr_left fun _ => iff_of_true ⟨rsp, rfl⟩ trivial
  simp only [GetChatServer, returns_bind]
  constructor
  · rintro ⟨final, ⟨result, next⟩, middle, hrun, hreturns⟩
    cases result with
    | error e => exact absurd (returns_pure.mp hreturns).1 (by simp)
    | ok server =>
        obtain ⟨hne, hcounts, hcontexts, rfl⟩ := hselect.mp ⟨_, ⟨server, rfl⟩, hrun⟩
        have hset := (htoken ⟨ErrorCodes.Success.value, server.host, server.port,
          generate_unique_string uuid⟩ next).mp hreturns
        obtain ⟨hsome, hstatus, -⟩ := returns_Set_iff.mp hset
        exact ⟨hne, hcounts, hstatus, by omega⟩
  · rintro ⟨hne, hcounts, hstatus, hcontexts⟩
    obtain ⟨⟨result, next⟩, ⟨server, hserver⟩, hrun⟩ :=
      hselect.mpr ⟨hne, hcounts, hcontexts.le, rfl⟩
    obtain rfl : result = .ok server := hserver
    have hsome : contexts - lookedUpAll (countAt replies) servers_ ≠ 0 := by omega
    have hset := (htoken ⟨ErrorCodes.Success.value, server.host, server.port,
      generate_unique_string uuid⟩ next).mpr (returns_Set_iff.mpr ⟨hsome, hstatus, rfl⟩)
    exact ⟨_, _, _, hrun, hset⟩

/-! ### The table through a call -/

/-- The loop moves entries about and makes no new ones. -/
theorem yields_visit {minServer : ChatServer} {rest : ServerTable} (hmin : Known config minServer)
    (hrest : ∀ entry ∈ rest, Known config entry.2) :
    (visit minServer rest : RedisProgram Unit _).Yields fun value =>
      Known config value.2.1 ∧ ∀ entry ∈ value.2.2, Known config entry.2 := by
  induction rest generalizing minServer with
  | nil => exact ⟨hmin, hrest⟩
  | cons entry rest ih =>
      obtain ⟨key, server⟩ := entry
      obtain ⟨hserver, hrest⟩ := List.forall_mem_cons.mp hrest
      rw [visit]
      split
      · refine Program.yields_bind.mpr ((ih hmin hrest).mono ?_)
        rintro ⟨result, chosen, rest'⟩ ⟨hchosen, hrest'⟩
        exact ⟨hchosen, List.forall_mem_cons.mpr ⟨hserver, hrest'⟩⟩
      · refine Program.yields_bind.mpr (Program.yields_of_forall (fun count_str => ?_) _)
        rw [loadCount_eq]
        cases loginCount count_str with
        | error e => exact ⟨hmin, List.forall_mem_cons.mpr ⟨hserver, hrest⟩⟩
        | ok n =>
            have hloaded : Known config ({ server with con_count := n } : ChatServer) := hserver
            have hleast : Known config
                (if n < minServer.con_count then { server with con_count := n } else minServer) := by
              split
              · exact hloaded
              · exact hmin
            refine Program.yields_bind.mpr ((ih hleast hrest).mono ?_)
            rintro ⟨result, chosen, rest'⟩ ⟨hchosen, hrest'⟩
            exact ⟨hchosen, List.forall_mem_cons.mpr ⟨hloaded, hrest'⟩⟩

/-- So what it selects is configured, and the table stays one of configured entries. -/
theorem yields_getChatServer {servers_ : ServerTable}
    (hservers : ∀ entry ∈ servers_, Known config entry.2) :
    (getChatServer servers_ : RedisProgram Unit _).Yields fun value =>
      (∀ server, value.1 = .ok server → Known config server) ∧ value.2 ≠ [] ∧
        ∀ entry ∈ value.2, Known config entry.2 := by
  cases servers_ with
  | nil => exact fun answer => answer.elim
  | cons entry rest =>
      obtain ⟨key, first⟩ := entry
      obtain ⟨hfirst, hrest⟩ := List.forall_mem_cons.mp hservers
      rw [getChatServer]
      refine Program.yields_bind.mpr (Program.yields_of_forall (fun count_str => ?_) _)
      rw [loadCount_eq]
      cases loginCount count_str with
      | error e =>
          refine ⟨fun server hserver => ?_, List.cons_ne_nil _ _,
            List.forall_mem_cons.mpr ⟨hfirst, hrest⟩⟩
          cases hserver
      | ok n =>
          have hloaded : Known config ({ first with con_count := n } : ChatServer) := hfirst
          refine Program.yields_bind.mpr ((yields_visit hloaded hrest).mono ?_)
          rintro ⟨result, chosen, rest'⟩ ⟨hchosen, hrest'⟩
          refine ⟨fun server hserver => ?_, List.cons_ne_nil _ _,
            List.forall_mem_cons.mpr ⟨hchosen, hrest'⟩⟩
          cases result with
          | error e => cases hserver
          | ok done => exact Except.ok.inj hserver ▸ hchosen

theorem yields_GetChatServer {servers_ : ServerTable} {uid : Int32} {uuid : Uuid}
    (hservers : ∀ entry ∈ servers_, Known config entry.2) :
    (GetChatServer servers_ uid uuid : RedisProgram Unit _).Yields fun value =>
      (∀ rsp, value.1 = .ok rsp → ∃ server, Known config server ∧
        rsp = ⟨ErrorCodes.Success.value, server.host, server.port, generate_unique_string uuid⟩) ∧
      value.2 ≠ [] ∧ ∀ entry ∈ value.2, Known config entry.2 := by
  rw [GetChatServer]
  refine Program.yields_bind.mpr ((yields_getChatServer hservers).mono ?_)
  rintro ⟨result, next⟩ ⟨hserver, hne, hnext⟩
  cases result with
  | error e =>
      refine ⟨fun rsp hrsp => ?_, hne, hnext⟩
      cases hrsp
  | ok server =>
      refine Program.yields_bind.mpr (Program.yields_of_forall (fun _ => ⟨?_, hne, hnext⟩) _)
      intro rsp hrsp
      exact ⟨server, hserver server rfl, (Except.ok.inj hrsp).symm⟩

/-! ### A configuration with a server -/

/-- The list of chat servers has a word whose section has a `Name`. -/
def ListsServer (cfg : ConfigMgr) : Prop :=
  ∃ word ∈ getlines 44 (cfg.value "chatservers" "Name"), cfg.valueIn word "Name" ≠ []

theorem insertServer_ne_nil (servers_ : ServerTable) (server : ChatServer) :
    insertServer servers_ server ≠ [] := by
  rw [insertServer]
  split
  · rename_i hany
    rintro hmap
    rw [List.map_eq_nil_iff.mp hmap] at hany
    cases hany
  · simp

theorem new_ne_nil_iff (cfg : ConfigMgr) : new cfg ≠ [] ↔ ListsServer cfg := by
  have hlists : ListsServer cfg ↔ (getlines 44 (cfg.value "chatservers" "Name")).filter
      (fun word => cfg.valueIn word "Name" ≠ []) ≠ [] := by
    simp [ListsServer, List.filter_eq_nil_iff]
  rw [hlists, new]
  cases (getlines 44 (cfg.value "chatservers" "Name")).filter
      fun word => cfg.valueIn word "Name" ≠ [] with
  | nil => simp
  | cons word words =>
      refine iff_of_true ?_ (List.cons_ne_nil _ _)
      rw [List.foldl_cons]
      exact List.foldlRecOn (motive := fun servers_ => servers_ ≠ []) words _
        (insertServer_ne_nil _ _) fun _ _ _ _ => insertServer_ne_nil _ _

/-! ### Every call -/

/-- What a call over a pool with so many contexts and with these replies comes to; none when it waits
for a context for ever or reads through a null pointer. -/
def outcome (contexts : Nat) (replies : Nat → Option redisReply) (servers_ : ServerTable) (uid : Int32)
    (uuid : Uuid) : Option (Except StdException GetChatServerRsp × ServerTable) :=
  (runReplies replies (GetChatServer servers_ uid uuid) (RedisConPool.idle contexts, 0)).map Prod.fst

/-- What a call is to come to: a server of the configuration, or an error. -/
def ReturnsServer (cfg : ConfigMgr)
    (outcome : Option (Except StdException GetChatServerRsp × ServerTable)) : Prop :=
  ∃ reply next, outcome = some (.ok reply, next) ∧
    (reply.error = ErrorCodes.Success.value ∧
        (∃ entry ∈ new cfg, reply.host = entry.2.host ∧ reply.port = entry.2.port) ∨
      reply.error ≠ ErrorCodes.Success.value)

/-- The tables that calls leave, one after the other, with any replies from Redis. -/
inductive Served (cfg : ConfigMgr) : ServerTable → Prop where
  | start {servers_ : ServerTable} (hperm : servers_.Perm (new cfg)) : Served cfg servers_
  | call {servers_ next : ServerTable} {contexts : Nat} {replies : Nat → Option redisReply}
      {uid : Int32} {uuid : Uuid} {result : Except StdException GetChatServerRsp}
      (hserved : Served cfg servers_)
      (hcall : outcome contexts replies servers_ uid uuid = some (result, next)) : Served cfg next

variable {cfg : ConfigMgr} {servers_ next : ServerTable} {uid : Int32} {uuid : Uuid}
  {result : Except StdException GetChatServerRsp}

theorem of_outcome (hservers : ∀ entry ∈ servers_, Known config entry.2)
    (hcall : outcome contexts replies servers_ uid uuid = some (result, next)) :
    (∀ rsp, result = .ok rsp → ∃ server, Known config server ∧
        rsp = ⟨ErrorCodes.Success.value, server.host, server.port, generate_unique_string uuid⟩) ∧
      next ≠ [] ∧ ∀ entry ∈ next, Known config entry.2 := by
  obtain ⟨⟨value, final⟩, hrun, rfl⟩ := Option.map_eq_some_iff.mp hcall
  exact (yields_GetChatServer hservers).of_interp hrun

/-- No call adds an entry, and none empties the table. -/
theorem Served.known (hserved : Served cfg servers_) :
    (servers_ ≠ [] ↔ ListsServer cfg) ∧ ∀ entry ∈ servers_, Known (new cfg) entry.2 := by
  induction hserved with
  | start hperm =>
      refine ⟨?_, fun entry hentry => ⟨entry, hperm.mem_iff.mp hentry, rfl, rfl, rfl⟩⟩
      rw [← new_ne_nil_iff, not_iff_not]
      exact ⟨fun hnil => (hnil ▸ hperm).nil_eq.symm, fun hnil => (hnil ▸ hperm).eq_nil⟩
  | @call servers_ next contexts replies uid uuid result _ hcall ih =>
      obtain ⟨hlists, hknown⟩ := ih
      obtain ⟨-, hne, hnext⟩ := of_outcome hknown hcall
      refine ⟨iff_of_true hne (hlists.mp ?_), hnext⟩
      rintro rfl
      cases hcall

/-- **When a call returns.** On any table that earlier calls have left, a call comes to what it should
exactly if the configuration lists a server and the call is supplied with contexts and legible
replies. -/
theorem returnsServer_iff (hserved : Served cfg servers_) :
    ReturnsServer cfg (outcome contexts replies servers_ uid uuid) ↔
      ListsServer cfg ∧ Supplied contexts replies servers_ := by
  obtain ⟨hlists, hknown⟩ := hserved.known
  rw [← hlists, ← @returns_GetChatServer_iff replies contexts servers_ uid uuid]
  constructor
  · rintro ⟨rsp, next, hcall, -⟩
    obtain ⟨⟨value, final⟩, hrun, rfl⟩ := Option.map_eq_some_iff.mp hcall
    exact ⟨final, _, ⟨rsp, rfl⟩, hrun⟩
  · rintro ⟨final, ⟨result, next⟩, ⟨rsp, rfl⟩, hrun⟩
    have hcall : outcome contexts replies servers_ uid uuid = some (.ok rsp, next) := by
      rw [outcome, hrun]
      rfl
    obtain ⟨hreply, -, -⟩ := of_outcome hknown hcall
    obtain ⟨server, ⟨entry, hentry, -, hhost, hport⟩, rfl⟩ := hreply rsp rfl
    exact ⟨_, next, hcall, .inl ⟨rfl, entry, hentry, hhost, hport⟩⟩

def commonIni : ConfigMgr := ⟨[
  (ascii "GateServer", [(ascii "Port", ascii "8080")]),
  (ascii "VerifyServer", [(ascii "Host", ascii "127.0.0.1"), (ascii "Port", ascii "50051")]),
  (ascii "StatusServer", [(ascii "Host", ascii "127.0.0.1"), (ascii "Port", ascii "50052")]),
  (ascii "Redis", [(ascii "Host", ascii "127.0.0.1"), (ascii "Port", ascii "6379"),
    (ascii "verify_prefix", ascii "verify:")]),
  (ascii "Mysql", [(ascii "Host", ascii "127.0.0.1"), (ascii "Port", ascii "3306"),
    (ascii "User", ascii "root"), (ascii "Passwd", ascii "123456"),
    (ascii "Schema", ascii "QuickChat")]),
  (ascii "ChatServer1", [(ascii "Host", ascii "127.0.0.1"), (ascii "Port", ascii "8090")]),
  (ascii "ChatServer2", [(ascii "Host", ascii "127.0.0.1"), (ascii "Port", ascii "8091")])]⟩

def repliesOf (replies : List redisReply) (sent : Nat) : Option redisReply := replies[sent]?

/-- Both servers have a count, and the reply to the token does not come. -/
theorem returnsServer_counts :
    ReturnsServer StatusServer.twoServers
      (outcome 3 (repliesOf [.ofString (ascii "1"), .ofString (ascii "5")])
        (new StatusServer.twoServers) 1 StatusCalls.zeroUuid) := by
  refine (returnsServer_iff (.start (List.Perm.refl _))).mpr ⟨?_, ?_⟩
  · rw [← new_ne_nil_iff]
    decide
  have hlookups := lookedUpAll_of_configured
    (countAt (repliesOf [.ofString (ascii "1"), .ofString (ascii "5")]))
    (configured_new (List.Perm.refl (new StatusServer.twoServers)))
  rw [show (new StatusServer.twoServers).length = 2 by decide] at hlookups
  refine ⟨fun sent hsent => legibleCount_iff.mpr ?_, ?_, ?_⟩
  · rw [hlookups] at hsent
    rcases Nat.le_one_iff_eq_zero_or_eq_one.mp (Nat.le_of_lt_succ hsent) with rfl | rfl
    · exact ⟨1, by decide⟩
    · exact ⟨5, by decide⟩
  · rw [hlookups]
    intro reply hnone
    cases hnone
  · rw [hlookups]
    decide

/-- Under the configuration of the repository a call reads through `begin()` of an empty table. With a
`logincount` that is no hash, the text of the error goes to `stoi`. With five servers the five contexts
of a fresh pool are gone before the token is stored. -/
theorem not_returnsServer_commonIni :
    ¬ ReturnsServer commonIni
        (outcome RedisMgr.poolSize (repliesOf []) (new commonIni) 1 StatusCalls.zeroUuid) ∧
      ¬ ReturnsServer StatusServer.twoServers
        (outcome RedisMgr.poolSize (repliesOf [Redis.wrongType]) (new StatusServer.twoServers) 1
          StatusCalls.zeroUuid) ∧
      ¬ ReturnsServer (listing "ABCDE")
        (outcome RedisMgr.poolSize (repliesOf []) (new (listing "ABCDE")) 1
          StatusCalls.zeroUuid) := by
  have hfails {cfg : ConfigMgr} {outcome : Option (Except StdException GetChatServerRsp × ServerTable)}
      (hnone : (outcome.bind fun result => result.1.toOption) = none) :
      ¬ ReturnsServer cfg outcome := by
    rintro ⟨reply, next, rfl, -⟩
    cases hnone
  exact ⟨hfails (by decide +kernel), hfails (by decide +kernel), hfails (by decide +kernel)⟩

end StatusServiceImpl

end QuickChat
