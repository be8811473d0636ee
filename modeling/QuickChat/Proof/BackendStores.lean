import QuickChat.Proof.Backend
import QuickChat.Proof.Handoff
import QuickChat.Proof.Provenance
import QuickChat.Proof.StatusService
import QuickChat.Proof.VerifyRequest

/-!
# What the calls leave in Redis

A call stores a code, or a token, or neither. What Redis has at a step of a run is therefore told by
the steps before: for an email the code stored last, as long as it lasts, and for a uid the token
issued last.
-/

namespace QuickChat

open Text Machine

namespace CallWorld

open GateServer StatusServiceImpl

variable {world : CallWorld} {reg_user : RegUserProcedure} {cfg : ConfigMgr} {stores after : Stores}

/-! ### What a call is answered -/

theorem dao_eq_some {α : Type} {program : MysqlProgram Unit α} {answer : α}
    (hdao : dao reg_user program stores = some (answer, after)) :
    answer = (Mysql.run reg_user program stores.mysql).1 ∧
      after = { stores with mysql := (Mysql.run reg_user program stores.mysql).2 } := by
  obtain ⟨rfl, rfl⟩ := Prod.mk.inj (Option.some.inj hdao)
  exact ⟨rfl, rfl⟩

/-- Looking for a key leaves Redis as it is, and finds what is there. -/
theorem serve_RedisGet {key code : Bytes} {found : Bool}
    (hserve : world.serve reg_user cfg (.gate (.RedisGet key)) stores = some ((found, code), after)) :
    after = stores ∧ (found = true → stores.redis.text key = some code) := by
  obtain ⟨⟨⟨found', code'⟩, redis⟩, hget, hresult⟩ := Option.map_eq_some_iff.mp hserve
  obtain ⟨hanswer, rfl⟩ := Prod.mk.inj hresult
  obtain ⟨rfl, rfl⟩ := Prod.mk.inj hanswer
  rw [RedisMgr.runThrough_Get, RedisMgr.run_Get] at hget
  split at hget
  · cases htext : stores.redis.text key with
    | none =>
        rw [htext] at hget
        obtain ⟨hnot, rfl⟩ := Prod.mk.inj (Option.some.inj hget)
        exact ⟨rfl, fun hfound => absurd ((Prod.mk.inj hnot).1.trans hfound) Bool.false_ne_true⟩
    | some text =>
        rw [htext] at hget
        obtain ⟨hfound, rfl⟩ := Prod.mk.inj (Option.some.inj hget)
        exact ⟨rfl, fun _ => congrArg some (Prod.mk.inj hfound).2⟩
  · obtain ⟨hnot, rfl⟩ := Prod.mk.inj (Option.some.inj hget)
    exact ⟨rfl, fun hfound => absurd ((Prod.mk.inj hnot).1.trans hfound) Bool.false_ne_true⟩

/-! ### What a call stores -/

theorem redis_clientReply (email : Bytes) :
    ((world.verify cfg stores).clientReply email).2.redis =
      if world.setex ≠ .raised false ∧ world.rpc ≠ .failed false then
        stores.redis.put (verifyKey cfg email)
          (some (.string (VerifyService.joinDigits world.choices), some (stores.redis.now + 300)))
      else stores.redis := by
  obtain ⟨link, delivered, uuid, choices, setex, rpc, unread⟩ := world
  rcases setex with _ | _ | _ <;> rcases rpc with _ | _ | _ <;> rfl

theorem serve_GetVerifyCode {email : Bytes} {reply : GetVerifyRsp}
    (hserve : world.serve reg_user cfg (.GetVerifyCode email) stores = some (reply, after)) :
    reply = ((world.verify cfg stores).clientReply email).1 ∧
      after = { stores with redis := ((world.verify cfg stores).clientReply email).2.redis } := by
  have hrun := (world.verify cfg stores).run_GetVerifyCode email
  obtain ⟨⟨reply', state⟩, hstate, hresult⟩ := Option.map_eq_some_iff.mp hserve
  obtain ⟨rfl, rfl⟩ := Prod.mk.inj (Option.some.inj (hrun.symm.trans hstate))
  obtain ⟨rfl, rfl⟩ := Prod.mk.inj hresult
  exact ⟨rfl, rfl⟩

/-- What the client returns and what is stored come from one and the same run of the service. -/
theorem serve_GetChatServer {uid : Int} {reply : GetChatServerRsp}
    (hserve : world.serve reg_user cfg (.GetChatServer uid) stores = some (reply, after)) :
    ∃ result servers_ redis, RedisMgr.runThrough world.link
        (GetChatServer stores.servers_ (Int32.ofInt uid) world.uuid) stores.redis
          = some ((result, servers_), redis) ∧
      reply = StatusGrpcClient.clientReply (StatusGrpcClient.rpcAnswer world.delivered result) ∧
      after = { stores with redis := redis, servers_ := servers_ } := by
  have hinterp := @StatusGrpcClient.interp_GetChatServer Stores world.serveStatus rfl rfl
    (Int32.ofInt uid) stores
  obtain ⟨answer, hanswer, hresult⟩ := Option.map_eq_some_iff.mp (hinterp.symm.trans hserve)
  obtain ⟨⟨⟨result, servers_⟩, redis⟩, hrun, rfl⟩ := Option.map_eq_some_iff.mp hanswer
  obtain ⟨rfl, rfl⟩ := Prod.mk.inj hresult
  exact ⟨result, servers_, redis, hrun, rfl, rfl⟩

end CallWorld

namespace Backend

open GateServer StatusServiceImpl CallWorld

variable {reg_user : RegUserProcedure} {cfg : ConfigMgr} {reader : JsonReader}
  {stores after : Stores} {call : Call}

inductive Writes (cfg : ConfigMgr) (call : Call) (stores : Stores) : Redis → Prop where
  | code {email code : Bytes} (hcode : call.storesCode = some (email, code))
      (hissues : call.issues stores = none) :
      Writes cfg call stores (stores.redis.put (verifyKey cfg email)
        (some (.string code, some (stores.redis.now + 300))))
  | token {uid : Int32} {token : Bytes} (hcode : call.storesCode = none)
      (hissues : call.issues stores = some (uid, token)) (htoken : (0 : UInt8) ∉ token) :
      Writes cfg call stores (stores.redis.put (token_key uid) (some (.string token, none)))
  | nothing (hcode : call.storesCode = none) (hissues : call.issues stores = none) :
      Writes cfg call stores stores.redis

section Servers

variable {i : Nat} {request : HttpRequest} {world : CallWorld} {uid : Int}

theorem issues_of_ok {reply : GetChatServerRsp} {servers_ : ServerTable} {redis : Redis}
    (hrun : RedisMgr.runThrough world.link
      (GetChatServer stores.servers_ (Int32.ofInt uid) world.uuid) stores.redis
        = some ((.ok reply, servers_), redis)) :
    (⟨i, request, .GetChatServer uid, world⟩ : Call).issues stores =
      if world.link.executes [ascii "SET", token_key (Int32.ofInt uid), reply.token] then
        some (Int32.ofInt uid, reply.token)
      else none := by
  simp only [Call.issues, hrun]

theorem issues_of_error {e : StdException} {servers_ : ServerTable} {redis : Redis}
    (hrun : RedisMgr.runThrough world.link
      (GetChatServer stores.servers_ (Int32.ofInt uid) world.uuid) stores.redis
        = some ((.error e, servers_), redis)) :
    (⟨i, request, .GetChatServer uid, world⟩ : Call).issues stores = none := by
  simp only [Call.issues, hrun]

/-- The only command of a login that changes Redis is that which stores its token. -/
theorem writes_GetChatServer {reply : GetChatServerRsp}
    (hserve : world.serve reg_user cfg (.GetChatServer uid) stores = some (reply, after)) :
    Writes cfg ⟨i, request, .GetChatServer uid, world⟩ stores after.redis := by
  obtain ⟨result, servers_, redis, hrun, -, rfl⟩ := serve_GetChatServer hserve
  have hselect := hrun
  rw [runThrough_GetChatServer] at hselect
  obtain ⟨⟨outcome, table⟩, -, hselect⟩ := Option.map_eq_some_iff.mp hselect
  cases outcome with
  | error e =>
      obtain ⟨hresult, rfl⟩ := Prod.mk.inj hselect
      obtain ⟨rfl, -⟩ := Prod.mk.inj hresult
      exact .nothing rfl (issues_of_error hrun)
  | ok server =>
      obtain ⟨hresult, hredis⟩ := Prod.mk.inj hselect
      obtain ⟨rfl, -⟩ := Prod.mk.inj hresult
      rw [← hredis]
      by_cases hexecutes : world.link.executes [ascii "SET", token_key (Int32.ofInt uid),
          generate_unique_string world.uuid] = true
      · rw [if_pos hexecutes]
        exact .token rfl ((issues_of_ok hrun).trans (if_pos hexecutes)) (not_mem_generate_unique_string _)
      · rw [if_neg hexecutes]
        exact .nothing rfl ((issues_of_ok hrun).trans (if_neg hexecutes))

theorem writes_GetVerifyCode {email : Bytes} {reply : GetVerifyRsp}
    (hserve : world.serve reg_user cfg (.GetVerifyCode email) stores = some (reply, after)) :
    Writes cfg ⟨i, request, .GetVerifyCode email, world⟩ stores after.redis := by
  rw [(serve_GetVerifyCode hserve).2]
  dsimp only
  rw [redis_clientReply]
  by_cases hstored : world.setex ≠ .raised false ∧ world.rpc ≠ .failed false
  · rw [if_pos hstored]
    exact .code (if_pos hstored) rfl
  · rw [if_neg hstored]
    exact .nothing (if_neg hstored) rfl

end Servers

/-- **A call and Redis.** It stores its code, or its token, or it leaves Redis as it is. -/
theorem writes_of_serve {answer : call.effect.Answer}
    (hserve : call.world.serve reg_user cfg call.effect stores = some (answer, after)) :
    Writes cfg call stores after.redis := by
  obtain ⟨i, request, effect, world⟩ := call
  cases effect with
  | gate effect =>
      cases effect with
      | RedisGet key => exact (serve_RedisGet hserve).1 ▸ .nothing rfl rfl
      | respond root => exact (Prod.mk.inj (Option.some.inj hserve)).2 ▸ .nothing rfl rfl
      | _ => exact (dao_eq_some hserve).2 ▸ .nothing rfl rfl
  | CheckPwd name pwd => exact (dao_eq_some hserve).2 ▸ .nothing rfl rfl
  | GetVerifyCode email => exact writes_GetVerifyCode hserve
  | GetChatServer uid => exact writes_GetChatServer hserve
  | _ => exact (Prod.mk.inj (Option.some.inj hserve)).2 ▸ .nothing rfl rfl

/-! ### One step and Redis -/

variable {backend next : Backend} {event : Event} {past : List (Backend × Event)}

theorem stored_of_callAt {i : Nat} {world : CallWorld}
    (hcall : callAt (backend, .call i world) = some call) :
    stored (backend, .call i world) = call.storesCode.map fun code => .put code.1 code.2 := by
  simp only [stored, hcall, Option.bind_some]

theorem issued_of_callAt {entry : Backend × Event} (hcall : callAt entry = some call) :
    issued entry = call.issues entry.1.stores := by
  rw [issued, hcall, Option.bind_some]

inductive StepWrites (cfg : ConfigMgr) (entry : Backend × Event) (redis : Redis) : Redis → Prop where
  | code {email code : Bytes} (hstored : stored entry = some (.put email code))
      (hissued : issued entry = none) :
      StepWrites cfg entry redis (redis.put (verifyKey cfg email)
        (some (.string code, some (redis.now + 300))))
  | token {uid : Int32} {token : Bytes} (hstored : stored entry = none)
      (hissued : issued entry = some (uid, token)) (htoken : (0 : UInt8) ∉ token) :
      StepWrites cfg entry redis (redis.put (token_key uid) (some (.string token, none)))
  | elapse (hstored : stored entry = some (.elapse 1)) (hissued : issued entry = none) :
      StepWrites cfg entry redis { redis with now := redis.now + 1 }
  | other {key : Bytes} {written : Option (RedisValue × Option Nat)} (hstored : stored entry = none)
      (hissued : issued entry = none) (hcode : ¬ cfg.value "Redis" "verify_prefix" <+: key)
      (htoken : ¬ USERTOKENPREFIX <+: key) : StepWrites cfg entry redis (redis.put key written)
  | nothing (hstored : stored entry = none) (hissued : issued entry = none) :
      StepWrites cfg entry redis redis

/-- **What a step does to Redis.** It issues a token, puts a code, writes to a key of neither, lets
time go by, or does nothing. -/
theorem stepWrites (hstep : step reg_user cfg reader backend event = some next) :
    StepWrites cfg (backend, event) backend.stores.redis next.stores.redis := by
  cases event with
  | elapse =>
      obtain rfl := step_elapse hstep
      exact .elapse rfl rfl
  | connection i event =>
      obtain ⟨-, hstores, -⟩ := step_connection hstep
      exact hstores ▸ .nothing rfl rfl
  | call i world =>
      obtain ⟨-, con, request, effect, rest, answer, stores, hget, hstage, hserve, rfl⟩ :=
        step_call hstep
      have hcall : callAt (backend, .call i world) = some ⟨i, request, effect, world⟩ :=
        callAt_of_handling hget hstage
      have hwrites : Writes cfg ⟨i, request, effect, world⟩ backend.stores stores.redis :=
        writes_of_serve hserve
      change StepWrites cfg _ backend.stores.redis stores.redis
      generalize stores.redis = redis at hwrites ⊢
      cases hwrites with
      | code hcode hissues =>
          exact .code (by rw [stored_of_callAt hcall, hcode]; rfl) ((issued_of_callAt hcall).trans hissues)
      | token hcode hissues htoken =>
          exact .token (by rw [stored_of_callAt hcall, hcode]; rfl)
            ((issued_of_callAt hcall).trans hissues) htoken
      | nothing hcode hissues =>
          exact .nothing (by rw [stored_of_callAt hcall, hcode]; rfl)
            ((issued_of_callAt hcall).trans hissues)
  | write key written =>
      obtain ⟨hcode, htoken, -, -, hredis⟩ := step_write hstep
      exact hredis ▸ .other rfl rfl hcode htoken

/-! ### The codes and the tokens -/

/-- No code is stored under the key of a token. -/
def KeysApart (cfg : ConfigMgr) : Prop :=
  ∀ uid, ¬ cfg.value "Redis" "verify_prefix" <+: token_key uid

/-- Under the key of every uid there is the token issued last, for good, and nothing without one. -/
structure TokensStored (past : List (Backend × Event)) (redis : Redis) : Prop where
  last : ∀ uid token, LastOf issued past uid token →
    redis.entries (token_key uid) = some (.string token, none) ∧ (0 : UInt8) ∉ token
  nothing : ∀ uid, (∀ token, ¬ LastOf issued past uid token) → redis.lookup (token_key uid) = none

section Stored

variable {entry : Backend × Event} {redis redis' : Redis} {mysql mysql' : Mysql}

theorem KeysApart.ne (hkeys : KeysApart cfg) (uid : Int32) (email : Bytes) :
    token_key uid ≠ verifyKey cfg email := by
  intro hsame
  exact hkeys uid (hsame ▸ List.prefix_append _ _)

theorem TokensStored.kept (htokens : TokensStored past redis) (hissued : issued entry = none)
    (hentries : ∀ uid, redis'.entries (token_key uid) = redis.entries (token_key uid))
    (hlookup : ∀ uid, redis.lookup (token_key uid) = none → redis'.lookup (token_key uid) = none) :
    TokensStored (past ++ [entry]) redis' := by
  have hlast (uid : Int32) (token : Bytes) :
      LastOf issued (past ++ [entry]) uid token ↔ LastOf issued past uid token := by
    rw [lastOf_concat, hissued]
    simp
  constructor
  · intro uid token htoken
    rw [hentries]
    exact htokens.last uid token ((hlast uid token).mp htoken)
  · intro uid hnone
    exact hlookup uid (htokens.nothing uid fun token => mt (hlast uid token).mpr (hnone token))

theorem TokensStored.put (htokens : TokensStored past redis) (hissued : issued entry = none)
    {key : Bytes} (hkey : ∀ uid, token_key uid ≠ key) (written : Option (RedisValue × Option Nat)) :
    TokensStored (past ++ [entry]) (redis.put key written) := by
  refine htokens.kept hissued (fun uid => Function.update_of_ne (hkey uid) _ _) fun uid hnone => ?_
  rw [Redis.lookup_put_of_ne (hkey uid)]
  exact hnone

/-- The token takes the place of the one before it, and is there for good. -/
theorem TokensStored.issue (htokens : TokensStored past redis) {uid : Int32} {token : Bytes}
    (hissued : issued entry = some (uid, token)) (hzero : (0 : UInt8) ∉ token) :
    TokensStored (past ++ [entry]) (redis.put (token_key uid) (some (.string token, none))) := by
  constructor
  · intro other token' hlast
    rcases lastOf_concat.mp hlast with hput | ⟨hput, hlast⟩
    · obtain ⟨rfl, rfl⟩ := Prod.mk.inj (Option.some.inj (hissued.symm.trans hput))
      exact ⟨Function.update_self _ _ _, hzero⟩
    · have hne : token_key other ≠ token_key uid := by
        intro hsame
        rw [token_key_injective hsame] at hput
        exact hput token hissued
      obtain ⟨hentry, hzero'⟩ := htokens.last other token' hlast
      exact ⟨(Function.update_of_ne hne _ _).trans hentry, hzero'⟩
  · intro other hnone
    have hne : token_key other ≠ token_key uid := by
      intro hsame
      obtain rfl := token_key_injective hsame
      exact hnone token (lastOf_concat.mpr (.inl hissued))
    rw [Redis.lookup_put_of_ne hne]
    apply htokens.nothing other
    intro token' hlast
    apply hnone token'
    refine lastOf_concat.mpr (.inr ⟨fun token'' hput => ?_, hlast⟩)
    obtain ⟨rfl, -⟩ := Prod.mk.inj (Option.some.inj (hissued.symm.trans hput))
    exact hne rfl

theorem TokensStored.step (hkeys : KeysApart cfg) (htokens : TokensStored past redis)
    (hwrites : StepWrites cfg entry redis redis') : TokensStored (past ++ [entry]) redis' := by
  cases hwrites with
  | code hstored hissued => exact htokens.put hissued (fun uid => hkeys.ne uid _) _
  | token hstored hissued hzero => exact htokens.issue hissued hzero
  | elapse hstored hissued =>
      exact htokens.kept hissued (fun _ => rfl) fun uid hnone => Redis.lookup_later_of_none hnone 1
  | other hstored hissued hcode htoken =>
      refine htokens.put hissued (fun uid hsame => ?_) _
      exact htoken (hsame ▸ List.prefix_append _ _)
  | nothing hstored hissued => exact htokens.kept hissued (fun _ => rfl) fun _ hnone => hnone

abbrev CodesKept (cfg : ConfigMgr) (past : List (Backend × Event)) (redis : Redis) : Prop :=
  CodeServers.CodesStored cfg (past.filterMap stored) ⟨redis, ⟨[], 0, []⟩⟩

theorem CodesKept.put (hcodes : CodesKept cfg past redis) {key : Bytes}
    (hkey : ∀ email, verifyKey cfg email ≠ key) (written : Option (RedisValue × Option Nat)) :
    CodesKept cfg past (redis.put key written) := by
  constructor
  · intro email code age hlast
    obtain ⟨expireAt, hentry, hexpire⟩ := hcodes.lastPut email code age hlast
    exact ⟨expireAt, (Function.update_of_ne (hkey email) _ _).trans hentry, hexpire⟩
  · intro email hnone
    rw [Redis.lookup_put_of_ne (hkey email)]
    exact hcodes.nothing email hnone

/-- A code that is put is the live one of its email; a token goes under no key of a code. -/
theorem CodesKept.step (hkeys : KeysApart cfg) (hcodes : CodesKept cfg past redis)
    (hwrites : StepWrites cfg entry redis redis') : CodesKept cfg (past ++ [entry]) redis' := by
  have hhistory : (past ++ [entry]).filterMap stored
      = past.filterMap stored ++ (stored entry).toList := by
    rw [List.filterMap_append]
    cases hentry : stored entry <;> simp [hentry]
  rw [CodesKept, hhistory]
  cases hwrites with
  | code hstored hissued =>
      rw [hstored]
      exact CodeServers.CodesStored.put hcodes _ _ rfl
  | elapse hstored hissued =>
      rw [hstored]
      exact hcodes.elapse 1 rfl
  | token hstored hissued hzero =>
      rw [hstored, Option.toList_none, List.append_nil]
      exact CodesKept.put hcodes (fun email => (hkeys.ne _ email).symm) _
  | other hstored hissued hcode htoken =>
      rw [hstored, Option.toList_none, List.append_nil]
      refine CodesKept.put hcodes (fun email hsame => ?_) _
      exact hcode (hsame ▸ List.prefix_append _ _)
  | nothing hstored hissued =>
      rw [hstored, Option.toList_none, List.append_nil]
      exact hcodes

end Stored

/-! ### What is found -/

theorem zero_not_mem_of_storesCode {email code : Bytes} (hcode : call.storesCode = some (email, code)) :
    (0 : UInt8) ∉ code := by
  obtain ⟨i, request, effect, world⟩ := call
  cases effect with
  | GetVerifyCode email' =>
      obtain ⟨-, hcode⟩ := Option.ite_none_right_eq_some.mp hcode
      obtain ⟨-, rfl⟩ := Prod.mk.inj (Option.some.inj hcode)
      exact VerifyService.zero_not_mem_joinDigits _
  | _ => exact absurd hcode (by simp [Call.storesCode])

theorem zero_not_mem_of_live {email code : Bytes} (hlive : LiveCode past email code) :
    (0 : UInt8) ∉ code := by
  obtain ⟨age, -, before, after, hsplit, -⟩ := hlive
  have hmem : Expiring.Event.put email code ∈ past.filterMap stored := by
    rw [hsplit]
    exact List.mem_append_right _ List.mem_cons_self
  obtain ⟨⟨backend, event⟩, -, hentry⟩ := List.mem_filterMap.mp hmem
  cases event with
  | call i world =>
      simp only [stored] at hentry
      obtain ⟨⟨email', code'⟩, hcode, hput⟩ := Option.map_eq_some_iff.mp hentry
      obtain ⟨call, -, hcode⟩ := Option.bind_eq_some_iff.mp hcode
      obtain ⟨rfl, rfl⟩ := Expiring.Event.put.inj hput
      exact zero_not_mem_of_storesCode hcode
  | _ => exact absurd hentry (by simp [stored, callAt])

section Found

variable {redis : Redis}

/-- What is found for an email is the live code of the bytes before its first NUL. -/
theorem CodesKept.text_iff (hcodes : CodesKept cfg past redis)
    (hverify : (0 : UInt8) ∉ cfg.value "Redis" "verify_prefix") {email code : Bytes} :
    redis.text (verifyKey cfg email) = some code ↔ LiveCode past (c_str email) code := by
  have hlookup {code : Bytes} : redis.lookup (verifyKey cfg (c_str email)) = some (.string code) ↔
      LiveCode past (c_str email) code := hcodes.lookup_eq_some_iff
  have hkey : (0 : UInt8) ∉ verifyKey cfg (c_str email) := by
    rw [verifyKey, List.mem_append, not_or]
    exact ⟨hverify, not_mem_c_str email⟩
  rw [CodeServers.text_verifyKey hverify, Redis.text_eq_some_iff_lookup hkey, hlookup]
  intro s hs
  exact zero_not_mem_of_live (hlookup.mp hs)

/-- What is found for a uid is the token issued to it last. -/
theorem TokensStored.text_iff (htokens : TokensStored past redis) {uid : Int32} {token : Bytes} :
    redis.text (token_key uid) = some token ↔ LastOf issued past uid token := by
  have hlookup {s : Bytes} : redis.lookup (token_key uid) = some (.string s) ↔
      LastOf issued past uid s := by
    constructor
    · intro hs
      by_cases hlast : ∃ token, LastOf issued past uid token
      · obtain ⟨last, hlast⟩ := hlast
        rw [Redis.lookup, (htokens.last uid last hlast).1] at hs
        obtain rfl := RedisValue.string.inj (Option.some.inj hs)
        exact hlast
      · rw [htokens.nothing uid (not_exists.mp hlast)] at hs
        exact absurd hs (by simp)
    · intro hlast
      rw [Redis.lookup, (htokens.last uid s hlast).1]
  rw [Redis.text_eq_some_iff_lookup (not_mem_token_key uid), hlookup]
  intro s hs
  exact (htokens.last uid s (hlookup.mp hs)).2

end Found

section Run

variable {size : Nat} {start : Backend} {events : List Event}

/-- The same induction, for the keys of the tokens. -/
theorem tokens_of_run (hkeys : KeysApart cfg)
    (hempty : ∀ uid, stores.redis.lookup (token_key uid) = none)
    (hlisten : listen size stores = some start)
    (hrun : run (Backend.step reg_user cfg reader) start events = some backend) :
    TokensStored (steps (Backend.step reg_user cfg reader) start events) backend.stores.redis := by
  obtain ⟨gate, -, rfl⟩ := Option.map_eq_some_iff.mp hlisten
  refine run_steps (P := fun past backend => TokensStored past backend.stores.redis) ?_ ?_ hrun
  · exact ⟨fun _ _ hlast => absurd hlast not_lastOf_nil, fun uid _ => hempty uid⟩
  · exact fun _ _ _ _ htokens hstep => htokens.step hkeys (stepWrites hstep)

end Run

end Backend

end QuickChat
