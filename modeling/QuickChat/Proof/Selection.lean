import QuickChat.Proof.RedisCaller
import QuickChat.Proof.ServerTable
import QuickChat.Proof.StatusCapacity

/-!
# The selected server has the smallest login count

The loop keeps in `minServer`, which is the first entry, a server whose count is below the counts of
all it has passed. As the keys are the names and no name occurs twice, the entries skipped for their
name are `minServer` itself, also after it has become a copy of a later entry.

A call looks up the count of every server, and each lookup takes a context of the pool and gives none
back. So it comes to an end only if there are as many idle contexts as servers.
-/

namespace QuickChat

open Text

namespace StatusServiceImpl

inductive CountText : Option Bytes → Int → Prop where
  | absent : CountText none intMax
  | text {s : Bytes} {n : Int} (hint : IntText s n) (hmin : intMin ≤ n) (hmax : n ≤ intMax) :
      CountText (some s) n

/-- The fields of the hash under `LOGIN_COUNT`; a key without a value is a hash without fields. -/
inductive LoginCounts (db : Redis) : (Bytes → Option Bytes) → Prop where
  | absent (hlookup : db.lookup LOGIN_COUNT = none) : LoginCounts db fun _ => none
  | hash {fields : Bytes → Option Bytes} (hlookup : db.lookup LOGIN_COUNT = some (.hash fields)) :
      LoginCounts db fields

theorem LoginCounts.hashText_eq {db : Redis} {fields : Bytes → Option Bytes}
    (hfields : LoginCounts db fields) (name : Bytes) :
    db.hashText LOGIN_COUNT name = ((fields name).map c_str).getD [] := by
  cases hfields with
  | absent hlookup => rw [Redis.hashText, hlookup]; rfl
  | hash hlookup => rw [Redis.hashText, hlookup]

theorem CountText.loginCount_eq {text : Option Bytes} {n : Int} (hcount : CountText text n) :
    loginCount ((text.map c_str).getD []) = .ok n := by
  cases hcount with
  | absent => rfl
  | @text s n hint hmin hmax =>
      have hzero : (0 : UInt8) ∉ s := hint.not_mem (by decide) (by decide) (by decide)
      rw [Option.map_some, Option.getD_some, c_str_of_not_mem hzero, loginCount,
        if_neg hint.ne_nil, hint.stoi_eq hmin hmax]

/-! ### The loop -/

/-- What the loop leaves in `minServer` when it starts with `minServer` and the entries `rest`. -/
structure Least (value : Bytes → Int) (minServer : ChatServer) (rest : ServerTable)
    (chosen : ChatServer) : Prop where
  origin : chosen = minServer ∨
    ∃ entry ∈ rest, chosen = { entry.2 with con_count := value entry.2.name }
  le_first : chosen.con_count ≤ minServer.con_count
  le_rest : ∀ entry ∈ rest, chosen.con_count ≤ value entry.2.name

variable {count : Bytes → Bytes} {value : Bytes → Int}

/-- Looking at one more entry, the loop takes it or keeps what it has. -/
theorem Least.cons {minServer server chosen : ChatServer} {key : Bytes} {rest : ServerTable}
    (hleast : Least value
      (if value server.name < minServer.con_count then
        { server with con_count := value server.name } else minServer) rest chosen) :
    Least value minServer ((key, server) :: rest) chosen := by
  obtain ⟨horigin, hfirst, hrest⟩ := hleast
  by_cases hless : value server.name < minServer.con_count
  · rw [if_pos hless] at horigin hfirst
    refine ⟨Or.inr ?_, hfirst.trans hless.le, List.forall_mem_cons.mpr ⟨hfirst, hrest⟩⟩
    rcases horigin with hserver | ⟨entry, hentry, heq⟩
    · exact ⟨(key, server), List.mem_cons_self, hserver⟩
    · exact ⟨entry, List.mem_cons_of_mem _ hentry, heq⟩
  · rw [if_neg hless] at horigin hfirst
    refine ⟨horigin.imp_right ?_, hfirst,
      List.forall_mem_cons.mpr ⟨hfirst.trans (not_lt.mp hless), hrest⟩⟩
    rintro ⟨entry, hentry, heq⟩
    exact ⟨entry, List.mem_cons_of_mem _ hentry, heq⟩

/-- By induction on the entries; the names differ, so none is skipped. -/
theorem visitWith_least {minServer : ChatServer} {rest : ServerTable}
    (hcounts : ∀ entry ∈ rest, loginCount (count entry.2.name) = .ok (value entry.2.name))
    (hnodup : (minServer.name :: rest.map fun entry => entry.2.name).Nodup) :
    (visitWith count minServer rest).1 = .ok () ∧
      Least value minServer rest (visitWith count minServer rest).2.1 := by
  induction rest generalizing minServer with
  | nil => exact ⟨rfl, Or.inl rfl, le_rfl, by simp⟩
  | cons entry rest ih =>
      obtain ⟨key, server⟩ := entry
      have hserver : loginCount (count server.name) = .ok (value server.name) :=
        hcounts (key, server) List.mem_cons_self
      have hcountsRest : ∀ entry ∈ rest,
          loginCount (count entry.2.name) = .ok (value entry.2.name) := by
        intro other hother
        exact hcounts other (List.mem_cons_of_mem _ hother)
      rw [List.map_cons, List.nodup_cons, List.nodup_cons] at hnodup
      obtain ⟨hfirst, hname, hnodupRest⟩ := hnodup
      rw [List.mem_cons, not_or] at hfirst
      -- The next `minServer` has a name that no later entry has, whichever of the two it is.
      have hnext : ((if value server.name < minServer.con_count then
            { server with con_count := value server.name } else minServer).name ::
          rest.map fun entry => entry.2.name).Nodup := by
        rw [List.nodup_cons]
        refine ⟨?_, hnodupRest⟩
        split
        · exact hname
        · exact hfirst.2
      obtain ⟨hresult, hleast⟩ := ih hcountsRest hnext
      rw [visitWith, if_neg (Ne.symm hfirst.1), loadCount_eq, hserver]
      exact ⟨hresult, hleast.cons⟩

/-! ### A call -/

theorem selectWith_least {servers_ : ServerTable} (hservers : Configured servers_)
    (hne : servers_ ≠ [])
    (hcounts : ∀ entry ∈ servers_, loginCount (count entry.2.name) = .ok (value entry.2.name)) :
    ∃ server next, selectWith count servers_ = some (.ok server, next) ∧
      ∃ entry ∈ servers_, server.name = entry.2.name ∧ server.host = entry.2.host ∧
        server.port = entry.2.port ∧
        ∀ other ∈ servers_, value entry.2.name ≤ value other.2.name := by
  obtain ⟨⟨key, first⟩, rest, rfl⟩ := List.exists_cons_of_ne_nil hne
  have hnodup := hservers.nodup
  rw [← hservers.map_name, List.map_cons] at hnodup
  have hstart : (({ first with con_count := value first.name } : ChatServer).name ::
      rest.map fun entry => entry.2.name).Nodup := hnodup
  obtain ⟨hresult, hleast⟩ :=
    visitWith_least (fun entry hentry => hcounts entry (List.mem_cons_of_mem _ hentry)) hstart
  have hfirst := hcounts (key, first) List.mem_cons_self
  rw [selectWith, loadCount_eq, hfirst]
  simp only [Except.map, hresult]
  refine ⟨_, _, rfl, ?_⟩
  obtain ⟨horigin, hle, hrest⟩ := hleast
  rcases horigin with heq | ⟨entry, hentry, heq⟩
  · refine ⟨(key, first), List.mem_cons_self, by rw [heq], by rw [heq], by rw [heq], ?_⟩
    rw [heq] at hrest
    exact List.forall_mem_cons.mpr ⟨le_rfl, hrest⟩
  · refine ⟨entry, List.mem_cons_of_mem _ hentry, by rw [heq], by rw [heq], by rw [heq], ?_⟩
    rw [heq] at hle hrest
    exact List.forall_mem_cons.mpr ⟨hle, hrest⟩

/-- **The selection.** Whatever the order of the entries, a call that gets its contexts returns the
name, host and port of an entry whose login count is not above that of any other. -/
theorem getChatServer_least {db : Redis} {fields : Bytes → Option Bytes} {servers_ : ServerTable}
    {value : Bytes → Int} (hfields : LoginCounts db fields) (hservers : Configured servers_)
    (hne : servers_ ≠ [])
    (hcounts : ∀ entry ∈ servers_, CountText (fields entry.2.name) (value entry.2.name)) :
    ∃ server next, RedisMgr.run (getChatServer servers_) db = some ((.ok server, next), db) ∧
      ∃ entry ∈ servers_, server.name = entry.2.name ∧ server.host = entry.2.host ∧
        server.port = entry.2.port ∧
        ∀ other ∈ servers_, value entry.2.name ≤ value other.2.name := by
  have hread : ∀ entry ∈ servers_,
      loginCount (db.hashText LOGIN_COUNT entry.2.name) = .ok (value entry.2.name) := by
    intro entry hentry
    rw [hfields.hashText_eq]
    exact (hcounts entry hentry).loginCount_eq
  obtain ⟨server, next, hselect, hleast⟩ := selectWith_least hservers hne hread
  refine ⟨server, next, ?_, hleast⟩
  rw [run_getChatServer, hselect]
  rfl

theorem Configured.distinct {servers_ : ServerTable} (hservers : Configured servers_) :
    Distinct (servers_.map Prod.snd) := by
  have hnodup := hservers.nodup
  rw [← hservers.map_name] at hnodup
  rwa [Distinct, List.map_map]

/-- **The selection, over the pool.** A call returns the name, host and port of an entry whose login
count is not above that of any other, exactly if the pool has an idle context for every server. -/
theorem getChatServer_least_iff {db : Redis} {fields : Bytes → Option Bytes} {servers_ : ServerTable}
    {value : Bytes → Int} {contexts : Nat} (hfields : LoginCounts db fields)
    (hservers : Configured servers_) (hne : servers_ ≠ [])
    (hcounts : ∀ entry ∈ servers_, CountText (fields entry.2.name) (value entry.2.name)) :
    (∃ server next pool,
      RedisMgr.runOver (RedisConPool.idle contexts) (getChatServer servers_) db
          = some ((.ok server, next), pool, db) ∧
        ∃ entry ∈ servers_, server.name = entry.2.name ∧ server.host = entry.2.host ∧
          server.port = entry.2.port ∧
          ∀ other ∈ servers_, value entry.2.name ≤ value other.2.name) ↔
      servers_.length ≤ contexts := by
  obtain ⟨server, next, hrun, hleast⟩ := getChatServer_least hfields hservers hne hcounts
  obtain ⟨taken, ⟨-, htaken⟩, hpool⟩ := RedisMgr.runOver_eq (spends_getChatServer servers_ 0) hrun
  have hlength := htaken server rfl hservers.distinct
  rw [Nat.zero_add, Nat.zero_add] at hlength
  rw [hpool, hlength]
  constructor
  · rintro ⟨_, _, _, hsome, -⟩
    by_contra hfew
    rw [if_neg hfew] at hsome
    cases hsome
  · intro henough
    exact ⟨server, next, _, if_pos henough, hleast⟩

def twoCounts (name : Bytes) : Int := if name = ascii "A" then 5 else -1

/-- The second server has the smaller count, with a sign. -/
theorem getChatServer_least_second :
    ∃ server next pool,
      RedisMgr.runOver (RedisConPool.idle 2) (getChatServer (new StatusServer.twoServers))
          (Redis.init.put LOGIN_COUNT (some (StatusServer.counts (ascii "+5") (ascii "-1"))))
        = some ((.ok server, next), pool,
            Redis.init.put LOGIN_COUNT (some (StatusServer.counts (ascii "+5") (ascii "-1")))) ∧
      ∃ entry ∈ new StatusServer.twoServers, server.name = entry.2.name ∧
        server.host = entry.2.host ∧ server.port = entry.2.port ∧
        ∀ other ∈ new StatusServer.twoServers,
          twoCounts entry.2.name ≤ twoCounts other.2.name := by
  have hfive : CountText (some (ascii "+5")) 5 :=
    .text (@IntText.plus (ascii "5") (by decide) (List.forall_mem_singleton.mpr rfl)) (by decide)
      (by decide)
  have hminus : CountText (some (ascii "-1")) (-1) :=
    .text (@IntText.minus (ascii "1") (by decide) (List.forall_mem_singleton.mpr rfl)) (by decide)
      (by decide)
  refine (getChatServer_least_iff (.hash (Redis.lookup_put_self _ _ _))
    (configured_new (List.Perm.refl _)) (by decide) ?_).mpr (by decide)
  rw [show new StatusServer.twoServers
    = [(ascii "A", ⟨ascii "a", ascii "1", ascii "A", 0⟩),
        (ascii "B", ⟨ascii "b", ascii "2", ascii "B", 0⟩)] from by decide]
  simp only [List.forall_mem_cons, List.not_mem_nil, false_imp_iff, implies_true, and_true]
  exact ⟨hfive, hminus⟩

def listing (letters : String) : ConfigMgr :=
  ⟨(ascii "chatservers", [(ascii "Name", (ascii letters).intersperse 44)]) ::
    (ascii letters).map fun letter =>
      ([letter], [(ascii "Name", [letter]), (ascii "Host", [letter]), (ascii "Port", ascii "8090")])⟩

/-- With six servers and no login counts, the first call on a fresh pool waits in its sixth lookup. -/
theorem six_servers_wait :
    (Configured (new (listing "ABCDEF")) ∧ new (listing "ABCDEF") ≠ [] ∧
        LoginCounts Redis.init (fun _ => none) ∧ CountText none intMax) ∧
      ¬ ∃ server next pool,
        RedisMgr.runOver (RedisConPool.idle RedisMgr.poolSize)
          (getChatServer (new (listing "ABCDEF"))) Redis.init
            = some ((.ok server, next), pool, Redis.init) := by
  have hwaits : (RedisMgr.runOver (RedisConPool.idle RedisMgr.poolSize)
      (getChatServer (new (listing "ABCDEF"))) Redis.init).isSome = false := by decide +kernel
  refine ⟨⟨configured_new (List.Perm.refl _), by decide +kernel, .absent rfl, .absent⟩, ?_⟩
  rintro ⟨server, next, pool, hreturns⟩
  rw [hreturns] at hwaits
  exact Bool.noConfusion hwaits

end StatusServiceImpl

end QuickChat
