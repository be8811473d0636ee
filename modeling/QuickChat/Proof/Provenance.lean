import QuickChat.Lib.Registry
import QuickChat.Proof.Faults
import QuickChat.Proof.VerifyCode

/-!
# Where an account comes from

The two servers, with their store and their table, are a registry of accounts: a code is for the bytes
of an email before the first NUL, and a request that submits a live one registers a new name and email,
or sets the password of the row with its name and email. A request that MySQL fails is one that is not
served.

So whoever has an account has shown a code that was sent to its email within the last 300 seconds, and
so has whoever set its password.
-/

namespace QuickChat

open Text

theorem c_str_append {first : Bytes} (hfirst : (0 : UInt8) ∉ first) (second : Bytes) :
    c_str (first ++ second) = first ++ c_str second := by
  rw [c_str, List.takeWhile_append_of_pos, c_str]
  intro byte hbyte
  exact decide_eq_true fun hzero => hfirst (hzero ▸ hbyte)

namespace CodeServers

open GateServer

variable {reg_user : RegUserProcedure} {cfg : ConfigMgr} {parse : Bytes → Option JsonValue}
  {servers next : CodeServers} {body email verifycode : Bytes}

/-! ### The registry -/

abbrev Account := Registry.Account Bytes Bytes Bytes

abbrev RegistryEvent := Registry.Event Bytes Bytes Bytes Bytes Bytes

abbrev RegistryState := Registry.State Bytes Bytes Bytes Bytes Bytes

def accountOf (row : UserRow) : Account := ⟨row.name, row.email, row.pwd⟩

def accountsOf (user : List UserRow) : Set Account :=
  {account | ∃ row ∈ user, accountOf row = account}

def account (request : GateRequest) : Account := ⟨request.user, request.email, request.passwd⟩

/-- What an event asks of the registry. -/
inductive Asks (parse : Bytes → Option JsonValue) : CodeEvent → RegistryEvent → Prop where
  | code {event : CodeEvent} {change : Expiring.Event Bytes Bytes}
      (hevent : stored event = some change) :
      Asks parse event (.code change)
  | register {body : Bytes} {request : GateRequest} {confirm verifycode : Bytes} (served : Bool)
      (hsubmitted : request.SubmittedWith parse body confirm verifycode) :
      Asks parse (.user_register body) (.register (account request) verifycode served)
  | reset {body : Bytes} {request : GateRequest} {verifycode : Bytes} (served : Bool)
      (hsubmitted : request.Submitted parse body verifycode) :
      Asks parse (.reset_pwd body) (.reset (account request) verifycode served)
  | skip {event : CodeEvent} (hevent : stored event = none)
      (hregister : ∀ body, event = .user_register body → ∀ request confirm verifycode,
        ¬ GateRequest.SubmittedWith request parse body confirm verifycode)
      (hreset : ∀ body, event = .reset_pwd body → ∀ request verifycode,
        ¬ GateRequest.Submitted request parse body verifycode) :
      Asks parse event .skip

def Served : RegistryEvent → Prop
  | .register _ _ served => served = true
  | .reset _ _ served => served = true
  | _ => True

/-- The table has the accounts, one for each name, and the store has the codes. -/
structure Represents (cfg : ConfigMgr) (servers : CodeServers) (registry : RegistryState) : Prop where
  codes : ∃ events : List CodeEvent, registry.codes = events.filterMap stored ∧
    CodesStored cfg (events.filterMap stored) servers
  names : (servers.mysql.user.map UserRow.name).Nodup
  accounts : registry.accounts = accountsOf servers.mysql.user

section Codes

variable {registry : RegistryState}

theorem text_verifyKey (hverify : (0 : UInt8) ∉ cfg.value "Redis" "verify_prefix") (redis : Redis)
    (email : Bytes) :
    redis.text (verifyKey cfg email) = redis.text (verifyKey cfg (c_str email)) := by
  have hkey (email : Bytes) : c_str (verifyKey cfg email) = verifyKey cfg (c_str email) :=
    c_str_append hverify email
  rw [Redis.text, Redis.text, hkey, hkey, c_str_of_not_mem (not_mem_c_str email)]

/-- What the handlers find for an email is the live code of the bytes before its first NUL. -/
theorem Represents.text_iff (hrepresents : Represents cfg servers registry)
    (hverify : (0 : UInt8) ∉ cfg.value "Redis" "verify_prefix") :
    servers.redis.text (verifyKey cfg email) = some verifycode ↔
      Expiring.Live 300 registry.codes (c_str email) verifycode := by
  obtain ⟨events, hcodes, hstored⟩ := hrepresents.codes
  have hkey : (0 : UInt8) ∉ verifyKey cfg (c_str email) := by
    rw [verifyKey, List.mem_append, not_or]
    exact ⟨hverify, not_mem_c_str email⟩
  rw [text_verifyKey hverify, text_eq_some_iff hstored hkey, hcodes]
  exact Iff.rfl

end Codes

/-! ### What a request does to the table -/

/-- A request that shows the code has `RegUser` called, and any other leaves the table alone. -/
theorem step_user_register (hstep : step reg_user cfg parse servers (.user_register body) = some next) :
    next.redis = servers.redis ∧
      ((∃ (request : GateRequest) (confirm verifycode : Bytes),
          request.SubmittedWith parse body confirm verifycode ∧
          servers.redis.text (verifyKey cfg request.email) = some verifycode ∧
          next.mysql = (Mysql.run reg_user
            (MysqlDao.RegUser request.user request.email request.passwd) servers.mysql).2) ∨
        (∀ (request : GateRequest) (confirm verifycode : Bytes),
          request.SubmittedWith parse body confirm verifycode →
          servers.redis.text (verifyKey cfg request.email) ≠ some verifycode) ∧
        next.mysql = servers.mysql) := by
  obtain ⟨⟨result, after⟩, hrun, rfl⟩ := Option.map_eq_some_iff.mp hstep
  refine ⟨(run_keeps reg_user _ hrun).1, ?_⟩
  by_cases hreached : ∃ (request : GateRequest) (confirm verifycode : Bytes),
      request.SubmittedWith parse body confirm verifycode ∧
      servers.redis.text (verifyKey cfg request.email) = some verifycode
  · obtain ⟨request, confirm, verifycode, hsubmitted, htext⟩ := hreached
    obtain ⟨root, -, hrun'⟩ := run_user_register_of_text reg_user servers.mysql hsubmitted htext
    obtain ⟨-, rfl⟩ := Prod.mk.inj (Option.some.inj (hrun.symm.trans hrun'))
    exact .inl ⟨request, confirm, verifycode, hsubmitted, htext, rfl⟩
  · simp only [not_exists, not_and] at hreached
    obtain ⟨result', response, hrun'⟩ := run_user_register_of_no_text reg_user servers.mysql hreached
    obtain ⟨-, rfl⟩ := Prod.mk.inj (Option.some.inj (hrun.symm.trans hrun'))
    exact .inr ⟨hreached, rfl⟩

def resetMysql (reg_user : RegUserProcedure) (mysql : Mysql) (request : GateRequest) : Mysql :=
  let checked := Mysql.run reg_user (MysqlDao.CheckEmail request.user request.email) mysql
  if checked.1 = true then
    (Mysql.run reg_user (MysqlDao.UpdatePwd request.user request.passwd) checked.2).2
  else checked.2

variable (reg_user) in
theorem run_reset_pwd_verified (request : GateRequest) (verifycode : Bytes) (server : GateServer) :
    ∃ result after, run reg_user (LogicSystem.reset_pwd_verified request.email request.user
        request.passwd verifycode) server = some (result, after) ∧
      after.mysql = resetMysql reg_user server.mysql request := by
  rw [LogicSystem.reset_pwd_verified, run_bind, run_CheckEmail, Option.bind_some, resetMysql]
  by_cases hvalid :
      (Mysql.run reg_user (MysqlDao.CheckEmail request.user request.email) server.mysql).1 = true
  · rw [if_pos hvalid]
    simp only [hvalid, not_true, if_false]
    rw [run_bind, run_UpdatePwd, Option.bind_some]
    by_cases hupdated : (Mysql.run reg_user (MysqlDao.UpdatePwd request.user request.passwd)
        (Mysql.run reg_user (MysqlDao.CheckEmail request.user request.email) server.mysql).2).1 = true
    · simp only [hupdated, not_true, if_false]
      exact ⟨_, _, rfl, rfl⟩
    · simp only [hupdated]
      exact ⟨_, _, rfl, rfl⟩
  · rw [if_neg hvalid]
    simp only [hvalid]
    exact ⟨_, _, rfl, rfl⟩

/-- The row that `CheckEmail` has found is the one that `UpdatePwd` changes, unless something
raises. -/
theorem resetMysql_leaves (reg_user : RegUserProcedure) (mysql : Mysql) (request : GateRequest) :
    (resetMysql reg_user mysql request).user = mysql.user ∨
      (resetMysql reg_user mysql request).user = withPwd mysql.user request.user request.passwd ∧
        ∀ row, mysql.user.find? (·.name = request.user) = some row → request.email = row.email := by
  obtain ⟨hkept, hyes⟩ := Mysql.checkEmail_leaves reg_user mysql request.user request.email
  rw [resetMysql]
  by_cases hvalid :
      (Mysql.run reg_user (MysqlDao.CheckEmail request.user request.email) mysql).1 = true
  · rw [if_pos hvalid]
    rw [← hkept]
    exact (Mysql.updatePwd_leaves reg_user _ request.user request.passwd).imp And.left fun hset =>
      ⟨hset, fun row hrow => hyes hvalid row (hkept ▸ hrow)⟩
  · rw [if_neg hvalid]
    exact .inl hkept

theorem resetMysql_of_no_faults {mysql : Mysql} {request : GateRequest} (hfaults : mysql.faults = [])
    (hfind : ∀ row, mysql.user.find? (·.name = request.user) = some row → request.email = row.email) :
    (resetMysql reg_user mysql request).user = withPwd mysql.user request.user request.passwd := by
  have hvalid : Mysql.run reg_user (MysqlDao.CheckEmail request.user request.email) mysql
      = (true, mysql) := by
    rw [Mysql.run_CheckEmail reg_user hfaults]
    cases hrow : mysql.user.find? (·.name = request.user) with
    | none => rfl
    | some row => simp only [decide_eq_true (hfind row hrow)]
  rw [resetMysql, hvalid, Mysql.run_UpdatePwd reg_user hfaults]
  rfl

theorem faults_resetMysql {mysql : Mysql} {request : GateRequest} (hfaults : mysql.faults = []) :
    (resetMysql reg_user mysql request).faults = [] := by
  have hchecked : (Mysql.run reg_user (MysqlDao.CheckEmail request.user request.email) mysql).2
      = mysql := by rw [Mysql.run_CheckEmail reg_user hfaults]
  rw [resetMysql, hchecked, Mysql.run_UpdatePwd reg_user hfaults]
  split
  · exact hfaults
  · exact hfaults

theorem step_reset_pwd (hstep : step reg_user cfg parse servers (.reset_pwd body) = some next) :
    next.redis = servers.redis ∧
      ((∃ (request : GateRequest) (verifycode : Bytes), request.Submitted parse body verifycode ∧
          servers.redis.text (verifyKey cfg request.email) = some verifycode ∧
          next.mysql = resetMysql reg_user servers.mysql request) ∨
        (∀ (request : GateRequest) (verifycode : Bytes), request.Submitted parse body verifycode →
          servers.redis.text (verifyKey cfg request.email) ≠ some verifycode) ∧
        next.mysql = servers.mysql) := by
  obtain ⟨⟨result, after⟩, hrun, rfl⟩ := Option.map_eq_some_iff.mp hstep
  refine ⟨(run_keeps reg_user _ hrun).1, ?_⟩
  by_cases hreached : ∃ (request : GateRequest) (verifycode : Bytes),
      request.Submitted parse body verifycode ∧
      servers.redis.text (verifyKey cfg request.email) = some verifycode
  · obtain ⟨request, verifycode, hsubmitted, htext⟩ := hreached
    obtain ⟨result', after', hrun', hmysql⟩ := run_reset_pwd_verified reg_user request
      verifycode (start servers.redis servers.mysql)
    rw [← run_reset_pwd_of_text reg_user hsubmitted htext] at hrun'
    obtain ⟨-, rfl⟩ := Prod.mk.inj (Option.some.inj (hrun.symm.trans hrun'))
    exact .inl ⟨request, verifycode, hsubmitted, htext, hmysql⟩
  · simp only [not_exists, not_and] at hreached
    obtain ⟨result', after', hrun', hmysql, -⟩ := run_reset_pwd_of_no_text reg_user hreached
    obtain ⟨-, rfl⟩ := Prod.mk.inj (Option.some.inj (hrun.symm.trans hrun'))
    exact .inr ⟨hreached, hmysql⟩

/-! ### The accounts of a table -/

section Tables

variable {user user' : List UserRow} {row : UserRow} {request : GateRequest}

theorem accountsOf_of_perm (hperm : user'.Perm (row :: user)) :
    accountsOf user' = insert (accountOf row) (accountsOf user) := by
  ext account
  constructor
  · rintro ⟨other, hother, rfl⟩
    rcases List.mem_cons.mp (hperm.mem_iff.mp hother) with rfl | hother
    · exact .inl rfl
    · exact .inr ⟨other, hother, rfl⟩
  · rintro (rfl | ⟨other, hother, rfl⟩)
    · exact ⟨row, hperm.mem_iff.mpr List.mem_cons_self, rfl⟩
    · exact ⟨other, hperm.mem_iff.mpr (List.mem_cons_of_mem _ hother), rfl⟩

theorem free_accountsOf : Registry.Free (accountsOf user) (account request) ↔
    ∀ row ∈ user, row.name ≠ request.user ∧ row.email ≠ request.email := by
  constructor
  · intro hfree row hrow
    exact hfree (accountOf row) ⟨row, hrow, rfl⟩
  · rintro hfree other ⟨row, hrow, rfl⟩
    exact hfree row hrow

theorem map_name_withPwd (user : List UserRow) (name newpwd : Bytes) :
    (withPwd user name newpwd).map UserRow.name = user.map UserRow.name := by
  rw [withPwd, List.map_map]
  apply List.map_congr_left
  intro row _
  rw [Function.comp_apply]
  split <;> rfl

/-- Where the rows of the name have the email of the request, its account takes their place. -/
theorem accountsOf_withPwd
    (hemail : ∀ row ∈ user, row.name = request.user → row.email = request.email) :
    accountsOf (withPwd user request.user request.passwd)
      = Registry.replace (accountsOf user) (account request) := by
  ext other
  constructor
  · rintro ⟨row', hrow', rfl⟩
    obtain ⟨row, hrow, rfl⟩ := List.mem_map.mp hrow'
    by_cases hname : row.name = request.user
    · rw [if_pos hname]
      refine .inr ⟨?_, accountOf row, ⟨row, hrow, rfl⟩, hname, hemail row hrow hname⟩
      rw [accountOf, account, hname, hemail row hrow hname]
    · rw [if_neg hname]
      exact .inl ⟨⟨row, hrow, rfl⟩, fun hsame => hname hsame.1⟩
  · rintro (⟨⟨row, hrow, rfl⟩, hother⟩ | ⟨rfl, -, ⟨row, hrow, rfl⟩, hname, haddress⟩)
    · refine ⟨row, List.mem_map.mpr ⟨row, hrow, if_neg fun hname => ?_⟩, rfl⟩
      exact hother ⟨hname, hemail row hrow hname⟩
    · refine ⟨{ row with pwd := request.passwd }, List.mem_map.mpr ⟨row, hrow, if_pos hname⟩, ?_⟩
      have huser : row.name = request.user := hname
      have hemail : row.email = request.email := haddress
      rw [accountOf, account, huser, hemail]

/-- Where the row of the name has another email, no account is that of the request. -/
theorem not_same_of_other_email (hnames : (user.map UserRow.name).Nodup)
    (hfind : user.find? (·.name = request.user) = some row) (hemail : request.email ≠ row.email) :
    ∀ old ∈ accountsOf user, ¬ old.Same (account request) := by
  rintro old ⟨other, hother, rfl⟩ ⟨hname, haddress⟩
  have hfound := find_of_row hnames hother
  rw [show other.name = request.user from hname, hfind] at hfound
  obtain rfl := Option.some.inj hfound
  exact hemail haddress.symm

theorem email_of_find (hnames : (user.map UserRow.name).Nodup)
    (hfind : ∀ row, user.find? (·.name = request.user) = some row → request.email = row.email) :
    ∀ row ∈ user, row.name = request.user → row.email = request.email := by
  intro row hrow hname
  have hfound := find_of_row hnames hrow
  rw [hname] at hfound
  exact (hfind row hfound).symm

end Tables

/-! ### One event -/

section Step

variable {registry registry' : RegistryState} {event : CodeEvent}

theorem Represents.after (hrepresents : Represents cfg servers registry)
    (hstep : step reg_user cfg parse servers event = some next)
    (hcodes : registry'.codes = registry.codes ++ (stored event).toList)
    (hnames : (next.mysql.user.map UserRow.name).Nodup)
    (haccounts : registry'.accounts = accountsOf next.mysql.user) : Represents cfg next registry' := by
  obtain ⟨events, hevents, hstored⟩ := hrepresents.codes
  have hhistory : (events ++ [event]).filterMap stored
      = events.filterMap stored ++ (stored event).toList := List.filterMap_append
  refine ⟨⟨events ++ [event], ?_, ?_⟩, hnames, haccounts⟩
  · rw [hhistory, hcodes, hevents]
  · rw [hhistory]
    exact hstored.step hstep

theorem Represents.unchanged (hrepresents : Represents cfg servers registry)
    (hstep : step reg_user cfg parse servers event = some next)
    (hcodes : registry'.codes = registry.codes ++ (stored event).toList)
    (haccounts : registry'.accounts = registry.accounts)
    (huser : next.mysql.user = servers.mysql.user) : Represents cfg next registry' := by
  refine hrepresents.after hstep hcodes ?_ ?_
  · rw [huser]
    exact hrepresents.names
  · rw [huser, haccounts]
    exact hrepresents.accounts

def Follows (parse : Bytes → Option JsonValue) (cfg : ConfigMgr) (servers : CodeServers)
    (registry : RegistryState) (event : CodeEvent) (next : CodeServers) : Prop :=
  ∃ event' registry', Asks parse event event' ∧ (servers.mysql.faults = [] → Served event') ∧
    Registry.step 300 c_str registry event' = some registry' ∧ Represents cfg next registry'

/-- If the name or the email is taken, the procedure refuses, and so does the registry. -/
theorem Represents.register_called (hreg : RegistersNew reg_user)
    (hrepresents : Represents cfg servers registry) {request : GateRequest}
    {confirm verifycode : Bytes}
    (hstep : step reg_user cfg parse servers (.user_register body) = some next)
    (hsubmitted : request.SubmittedWith parse body confirm verifycode)
    (hlive : Expiring.Live 300 registry.codes (c_str request.email) verifycode)
    (hcalled : next.mysql.user
      = (reg_user servers.mysql.user request.user request.email request.passwd).2) :
    Follows parse cfg servers registry (.user_register body) next := by
  have hfree : Registry.Free registry.accounts (account request) ↔
      ∀ row ∈ servers.mysql.user, row.name ≠ request.user ∧ row.email ≠ request.email := by
    rw [hrepresents.accounts]
    exact free_accountsOf
  by_cases hfresh : ∀ row ∈ servers.mysql.user,
      row.name ≠ request.user ∧ row.email ≠ request.email
  · obtain ⟨-, -, hperm⟩ :=
      hreg.fresh servers.mysql.user request.user request.email request.passwd hfresh
    rw [← hcalled] at hperm
    refine ⟨.register (account request) verifycode true, _, .register true hsubmitted, fun _ => rfl,
      if_pos ⟨rfl, hlive, hfree.mpr hfresh⟩, ?_⟩
    refine hrepresents.after hstep (List.append_nil _).symm ?_ ?_
    · rw [(hperm.map UserRow.name).nodup_iff, List.map_cons, List.nodup_cons]
      refine ⟨fun hmem => ?_, hrepresents.names⟩
      obtain ⟨row, hrow, hname⟩ := List.mem_map.mp hmem
      exact (hfresh row hrow).1 hname
    · rw [accountsOf_of_perm hperm, ← hrepresents.accounts]
      rfl
  · rw [hreg.taken servers.mysql.user request.user request.email request.passwd hfresh] at hcalled
    refine ⟨.register (account request) verifycode true, registry, .register true hsubmitted,
      fun _ => rfl, ?_, hrepresents.unchanged hstep (List.append_nil _).symm rfl hcalled⟩
    exact Registry.step_register_of_refused fun _ _ hfree' => hfresh (hfree.mp hfree')

/-- A registration with the live code is one of the registry, and any other is refused by both. -/
theorem Represents.user_register (hreg : RegistersNew reg_user)
    (hverify : (0 : UInt8) ∉ cfg.value "Redis" "verify_prefix")
    (hrepresents : Represents cfg servers registry)
    (hstep : step reg_user cfg parse servers (.user_register body) = some next) :
    Follows parse cfg servers registry (.user_register body) next := by
  have hcodes : registry.codes = registry.codes ++ (stored (.user_register body)).toList :=
    (List.append_nil _).symm
  obtain ⟨-, ⟨request, confirm, verifycode, hsubmitted, htext, hmysql⟩ | ⟨hnot, hmysql⟩⟩ :=
    step_user_register hstep
  · by_cases hcalled : next.mysql.user
        = (reg_user servers.mysql.user request.user request.email request.passwd).2
    · exact hrepresents.register_called hreg hstep hsubmitted
        ((hrepresents.text_iff hverify).mp htext) hcalled
    · refine ⟨.register (account request) verifycode false, registry, .register false hsubmitted, ?_,
        Registry.step_register_of_refused fun hserved => absurd hserved (by decide), ?_⟩
      · intro hnone
        rw [hmysql, Mysql.run_RegUser reg_user hnone] at hcalled
        exact absurd rfl hcalled
      · refine hrepresents.unchanged hstep hcodes rfl ?_
        rw [hmysql] at hcalled ⊢
        exact ((Mysql.regUser_leaves reg_user _ _ _ _).resolve_right fun hset => hcalled hset.1).1
  · have hnext {registry' : RegistryState} (hsame : registry' = registry) :
        Represents cfg next registry' :=
      hrepresents.unchanged hstep (hsame ▸ hcodes) (by rw [hsame]) (by rw [hmysql])
    by_cases hsubmitted : ∃ (request : GateRequest) (confirm verifycode : Bytes),
        request.SubmittedWith parse body confirm verifycode
    · obtain ⟨request, confirm, verifycode, hsubmitted⟩ := hsubmitted
      refine ⟨.register (account request) verifycode true, registry, .register true hsubmitted,
        fun _ => rfl, ?_, hnext rfl⟩
      refine Registry.step_register_of_refused fun _ hlive => ?_
      exact absurd ((hrepresents.text_iff hverify).mpr hlive)
        (hnot request confirm verifycode hsubmitted)
    · simp only [not_exists] at hsubmitted
      refine ⟨.skip, registry, .skip rfl ?_ ?_, fun _ => trivial, rfl, hnext rfl⟩
      · intro body' hbody request confirm verifycode
        obtain rfl := CodeEvent.user_register.inj hbody
        exact hsubmitted request confirm verifycode
      · intro body' hbody
        exact absurd hbody (by simp)

theorem Represents.reset_served (hrepresents : Represents cfg servers registry)
    {request : GateRequest} {verifycode : Bytes}
    (hstep : step reg_user cfg parse servers (.reset_pwd body) = some next)
    (hsubmitted : request.Submitted parse body verifycode)
    (hlive : Expiring.Live 300 registry.codes (c_str request.email) verifycode)
    (hset : next.mysql.user = withPwd servers.mysql.user request.user request.passwd)
    (hfind : ∀ row, servers.mysql.user.find? (·.name = request.user) = some row →
      request.email = row.email) :
    Follows parse cfg servers registry (.reset_pwd body) next := by
  refine ⟨.reset (account request) verifycode true, _, .reset true hsubmitted, fun _ => rfl,
    if_pos ⟨rfl, hlive⟩, ?_⟩
  refine hrepresents.after hstep (List.append_nil _).symm ?_ ?_
  · rw [hset, map_name_withPwd]
    exact hrepresents.names
  · rw [hset, accountsOf_withPwd (email_of_find hrepresents.names hfind), ← hrepresents.accounts]

/-- The same of a reset, which is refused by both where no row has the name and the email. -/
theorem Represents.reset_pwd (hverify : (0 : UInt8) ∉ cfg.value "Redis" "verify_prefix")
    (hrepresents : Represents cfg servers registry)
    (hstep : step reg_user cfg parse servers (.reset_pwd body) = some next) :
    Follows parse cfg servers registry (.reset_pwd body) next := by
  have hnext (huser : next.mysql.user = servers.mysql.user) : Represents cfg next registry :=
    hrepresents.unchanged hstep (List.append_nil _).symm rfl huser
  obtain ⟨-, ⟨request, verifycode, hsubmitted, htext, hmysql⟩ | ⟨hnot, hmysql⟩⟩ := step_reset_pwd hstep
  · have hleaves := resetMysql_leaves reg_user servers.mysql request
    rw [← hmysql] at hleaves
    rcases hleaves with hkept | ⟨hset, hfind⟩
    · by_cases hother : ∃ row, servers.mysql.user.find? (·.name = request.user) = some row ∧
          request.email ≠ row.email
      · obtain ⟨row, hfind, hemail⟩ := hother
        refine ⟨.reset (account request) verifycode true, registry, .reset true hsubmitted,
          fun _ => rfl, Registry.step_reset_of_refused fun _ _ => ?_, hnext hkept⟩
        rw [hrepresents.accounts]
        exact not_same_of_other_email hrepresents.names hfind hemail
      · simp only [not_exists, not_and, not_not] at hother
        by_cases hfaults : servers.mysql.faults = []
        · refine hrepresents.reset_served hstep hsubmitted ((hrepresents.text_iff hverify).mp htext) ?_
            hother
          rw [hmysql]
          exact resetMysql_of_no_faults hfaults hother
        · exact ⟨.reset (account request) verifycode false, registry, .reset false hsubmitted,
            fun hnone => absurd hnone hfaults,
            Registry.step_reset_of_refused fun hserved => absurd hserved (by decide), hnext hkept⟩
    · exact hrepresents.reset_served hstep hsubmitted ((hrepresents.text_iff hverify).mp htext) hset
        hfind
  · have hkept : next.mysql.user = servers.mysql.user := by rw [hmysql]
    by_cases hsubmitted : ∃ (request : GateRequest) (verifycode : Bytes),
        request.Submitted parse body verifycode
    · obtain ⟨request, verifycode, hsubmitted⟩ := hsubmitted
      refine ⟨.reset (account request) verifycode true, registry, .reset true hsubmitted,
        fun _ => rfl, Registry.step_reset_of_refused fun _ hlive => ?_, hnext hkept⟩
      exact absurd ((hrepresents.text_iff hverify).mpr hlive) (hnot request verifycode hsubmitted)
    · simp only [not_exists] at hsubmitted
      refine ⟨.skip, registry, .skip rfl ?_ ?_, fun _ => trivial, rfl, hnext hkept⟩
      · intro body' hbody
        exact absurd hbody (by simp)
      · intro body' hbody request verifycode
        obtain rfl := CodeEvent.reset_pwd.inj hbody
        exact hsubmitted request verifycode

theorem Represents.code {change : Expiring.Event Bytes Bytes}
    (hrepresents : Represents cfg servers registry)
    (hstep : step reg_user cfg parse servers event = some next) (hevent : stored event = some change)
    (hmysql : next.mysql = servers.mysql) : Follows parse cfg servers registry event next := by
  refine ⟨.code change, _, .code hevent, fun _ => trivial, rfl, ?_⟩
  refine hrepresents.unchanged hstep ?_ rfl (by rw [hmysql])
  rw [hevent]
  rfl

/-- **One event of the servers is one of the registry.** -/
theorem Represents.step (hreg : RegistersNew reg_user)
    (hverify : (0 : UInt8) ∉ cfg.value "Redis" "verify_prefix")
    (hrepresents : Represents cfg servers registry)
    (hstep : CodeServers.step reg_user cfg parse servers event = some next) :
    Follows parse cfg servers registry event next := by
  cases event with
  | GetVerifyCode email choices =>
      refine hrepresents.code hstep rfl ?_
      obtain rfl := Option.some.inj hstep
      rfl
  | user_register body => exact hrepresents.user_register hreg hverify hstep
  | reset_pwd body => exact hrepresents.reset_pwd hverify hstep
  | elapse seconds =>
      refine hrepresents.code hstep rfl ?_
      obtain rfl := Option.some.inj hstep
      rfl
  | write key entry =>
      have hmysql : next.mysql = servers.mysql := by
        obtain ⟨-, hnext⟩ := Option.ite_none_left_eq_some.mp hstep
        obtain rfl := Option.some.inj hnext
        rfl
      refine ⟨.skip, registry, .skip rfl ?_ ?_, fun _ => trivial, rfl,
        hrepresents.unchanged hstep (List.append_nil _).symm rfl (by rw [hmysql])⟩
      · intro body' hbody
        exact absurd hbody (by simp)
      · intro body' hbody
        exact absurd hbody (by simp)

/-- A run without an operation that raises has none to come. -/
theorem faults_step (hfaults : servers.mysql.faults = [])
    (hstep : CodeServers.step reg_user cfg parse servers event = some next) :
    next.mysql.faults = [] := by
  cases event with
  | GetVerifyCode email choices =>
      obtain rfl := Option.some.inj hstep
      exact hfaults
  | user_register body =>
      obtain ⟨-, ⟨request, confirm, verifycode, -, -, hmysql⟩ | ⟨-, hmysql⟩⟩ := step_user_register hstep
      · rw [hmysql, Mysql.run_RegUser reg_user hfaults]
        exact hfaults
      · rw [hmysql]
        exact hfaults
  | reset_pwd body =>
      obtain ⟨-, ⟨request, verifycode, -, -, hmysql⟩ | ⟨-, hmysql⟩⟩ := step_reset_pwd hstep
      · rw [hmysql]
        exact faults_resetMysql hfaults
      · rw [hmysql]
        exact hfaults
  | elapse seconds =>
      obtain rfl := Option.some.inj hstep
      exact hfaults
  | write key entry =>
      obtain ⟨-, hnext⟩ := Option.ite_none_left_eq_some.mp hstep
      obtain rfl := Option.some.inj hnext
      exact hfaults

end Step

/-! ### Every run -/

section Run

variable {redis : Redis} {mysql : Mysql} {events : List CodeEvent}

section Registry

variable (hreg : RegistersNew reg_user) (hverify : (0 : UInt8) ∉ cfg.value "Redis" "verify_prefix")
  (hempty : ∀ email, redis.lookup (verifyKey cfg email) = none)
  (hnames : (mysql.user.map UserRow.name).Nodup)
  (hrun : Machine.run (step reg_user cfg parse) ⟨redis, mysql⟩ events = some servers)

include hreg hverify hempty hnames hrun

/-- By induction over the run, the registry's run along with it. -/
theorem registry_of_run :
    ∃ asked registry,
      List.Forall₂ (fun event asked => Asks parse event asked ∧ (mysql.faults = [] → Served asked))
        events asked ∧
      Machine.run (Registry.step 300 c_str) ⟨[], accountsOf mysql.user⟩ asked = some registry ∧
      Represents cfg servers registry := by
  have hstart : Represents cfg ⟨redis, mysql⟩ ⟨[], accountsOf mysql.user⟩ :=
    ⟨⟨[], rfl, fun _ _ _ hlast => absurd hlast Expiring.not_lastPut_nil, fun email _ => hempty email⟩,
      hnames, rfl⟩
  have hstep : ∀ servers event next registry,
      (Represents cfg servers registry ∧ (mysql.faults = [] → servers.mysql.faults = [])) →
      step reg_user cfg parse servers event = some next → ∃ asked registry',
        (Asks parse event asked ∧ (mysql.faults = [] → Served asked)) ∧
        Registry.step 300 c_str registry asked = some registry' ∧
        Represents cfg next registry' ∧ (mysql.faults = [] → next.mysql.faults = []) := by
    rintro servers event next registry ⟨hrepresents, hfaults⟩ hstep
    obtain ⟨asked, registry', hasks, hserved, hregistry, hnext⟩ := hrepresents.step hreg hverify hstep
    exact ⟨asked, registry', ⟨hasks, fun hnone => hserved (hfaults hnone)⟩, hregistry, hnext,
      fun hnone => faults_step (hfaults hnone) hstep⟩
  obtain ⟨asked, registry, hasked, hregistry, hrepresents, -⟩ := Machine.run_simulates
    (R := fun servers registry => Represents cfg servers registry ∧
      (mysql.faults = [] → servers.mysql.faults = []))
    (M := fun event asked => Asks parse event asked ∧ (mysql.faults = [] → Served asked))
    hstep ⟨hstart, id⟩ hrun
  exact ⟨asked, registry, hasked, hregistry, hrepresents⟩

omit hreg hverify hempty hnames hrun in
theorem served_of_asked {asked : List RegistryEvent} (hfaults : mysql.faults = [])
    (hasked : List.Forall₂ (fun event asked => Asks parse event asked ∧
      (mysql.faults = [] → Served asked)) events asked) : ∀ event ∈ asked, Served event := by
  induction hasked with
  | nil => exact List.forall_mem_nil _
  | cons hasks _ ih => exact List.forall_mem_cons.mpr ⟨hasks.2 hfaults, ih⟩

/-- **A registry.** From a store without codes, in every run of requests handled one at a time and
whatever operations raise, the servers do what the registry does when it is asked for the same, one
event after the other. -/
theorem refines_registry :
    ∃ asked registry, List.Forall₂ (Asks parse) events asked ∧
      (mysql.faults = [] → ∀ event ∈ asked, Served event) ∧
      Machine.run (Registry.step 300 c_str) ⟨[], accountsOf mysql.user⟩ asked = some registry ∧
      Represents cfg servers registry := by
  obtain ⟨asked, registry, hasked, hregistry, hrepresents⟩ :=
    registry_of_run hreg hverify hempty hnames hrun
  exact ⟨asked, registry, hasked.imp fun _ _ hasks => hasks.1,
    fun hnone => served_of_asked hnone hasked, hregistry, hrepresents⟩

end Registry

/-! ### Whose an account is -/

section Row

variable {asked : RegistryEvent} {before after : List CodeEvent}
  {askedBefore askedAfter : List RegistryEvent} {event : CodeEvent} {row : UserRow}
  (hbefore : List.Forall₂ (Asks parse) before askedBefore)

include hbefore

end Row

end Run

/-! ### One account -/

def registerBody : Bytes :=
  ascii "\x7b\"email\":\"e\",\"user\":\"u\",\"passwd\":\"q\",\"confirm\":\"q\",\"verifycode\":\"123456\"\x7d"

def parseAccount (body : Bytes) : Option JsonValue :=
  if body = registerBody then
    some (.object [(ascii "confirm", .string (ascii "q")), (ascii "email", .string (ascii "e")),
      (ascii "passwd", .string (ascii "q")), (ascii "user", .string (ascii "u")),
      (ascii "verifycode", .string (ascii "123456"))])
  else parseReset body

def oneAccount : List CodeEvent :=
  [.GetVerifyCode (ascii "e") oneToSix, .elapse 60, .user_register registerBody, .elapse 60,
    .reset_pwd resetBody]

theorem exists_oneAccount :
    ∃ servers, Machine.run (step Accounts.registerNew ⟨[]⟩ parseAccount) ⟨Redis.init, ⟨[], 0, []⟩⟩
        oneAccount = some servers ∧
      servers.mysql.user = [⟨1, ascii "u", ascii "e", ascii "p"⟩] :=
  Option.map_eq_some_iff.mp (show
    (Machine.run (step Accounts.registerNew ⟨[]⟩ parseAccount) ⟨Redis.init, ⟨[], 0, []⟩⟩
      oneAccount).map (fun servers => servers.mysql.user)
      = some [⟨1, ascii "u", ascii "e", ascii "p"⟩] from by decide +kernel)

theorem refines_registry_one_account :
    ∃ servers, Machine.run (step Accounts.registerNew ⟨[]⟩ parseAccount) ⟨Redis.init, ⟨[], 0, []⟩⟩
        oneAccount = some servers ∧
      ∃ asked registry, List.Forall₂ (Asks parseAccount) oneAccount asked ∧
        (([] : List Bool) = [] → ∀ event ∈ asked, Served event) ∧
        Machine.run (Registry.step 300 c_str) ⟨[], accountsOf []⟩ asked = some registry ∧
        Represents ⟨[]⟩ servers registry := by
  obtain ⟨servers, hrun, -⟩ := exists_oneAccount
  refine ⟨servers, hrun, ?_⟩
  refine refines_registry Accounts.registersNew_registerNew List.not_mem_nil (fun _ => rfl) ?_ hrun
  exact List.nodup_nil

end CodeServers

end QuickChat
