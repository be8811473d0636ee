import QuickChat.Proof.GateHandlers
import QuickChat.Proof.Mysql

/-!
# Setting a new password

A request of `/reset_pwd` that submits the right code comes to `CheckEmail` and `UpdatePwd`. Both are
content with a name that no row has: the first finds nothing to compare with, the second nothing to
update, and the reply reports success.
-/

namespace QuickChat

open Text

/-! ### The table -/

/-- The row of the user, with the email of the request. -/
def GateRequest.Matches (request : GateRequest) (row : UserRow) : Prop :=
  row.name = request.user ∧ row.email = request.email

def withPwd (user : List UserRow) (name newpwd : Bytes) : List UserRow :=
  user.map fun row => if row.name = name then { row with pwd := newpwd } else row

theorem withPwd_of_no_row {user : List UserRow} {name : Bytes}
    (hnone : ∀ row ∈ user, row.name ≠ name) (newpwd : Bytes) : withPwd user name newpwd = user := by
  rw [withPwd, List.map_congr_left (g := id), List.map_id]
  intro row hrow
  exact if_neg (hnone row hrow)

/-- Names are unique, so one row changes. -/
theorem withPwd_of_row {user : List UserRow} {row : UserRow}
    (hnames : (user.map UserRow.name).Nodup) (hrow : row ∈ user) (newpwd : Bytes) :
    ∃ above below, user = above ++ row :: below ∧
      withPwd user row.name newpwd = above ++ { row with pwd := newpwd } :: below := by
  obtain ⟨above, below, rfl⟩ := List.append_of_mem hrow
  refine ⟨above, below, rfl, ?_⟩
  rw [List.map_append, List.map_cons, List.nodup_append] at hnames
  obtain ⟨-, hbelow, habove⟩ := hnames
  rw [List.nodup_cons] at hbelow
  have hkeep {rows : List UserRow} (hrows : ∀ other ∈ rows, other.name ≠ row.name) :
      withPwd rows row.name newpwd = rows := withPwd_of_no_row hrows newpwd
  have habove' : ∀ other ∈ above, other.name ≠ row.name := fun other hother =>
    habove _ (List.mem_map_of_mem hother) _ List.mem_cons_self
  have hbelow' : ∀ other ∈ below, other.name ≠ row.name := fun other hother heq =>
    hbelow.1 (heq ▸ List.mem_map_of_mem hother)
  calc withPwd (above ++ row :: below) row.name newpwd
      = withPwd above row.name newpwd ++ withPwd [row] row.name newpwd
          ++ withPwd below row.name newpwd := by simp [withPwd]
    _ = above ++ { row with pwd := newpwd } :: below := by
      rw [hkeep habove', hkeep hbelow', List.append_assoc]
      simp [withPwd]

theorem find_of_row {user : List UserRow} {row : UserRow}
    (hnames : (user.map UserRow.name).Nodup) (hrow : row ∈ user) :
    user.find? (·.name = row.name) = some row := by
  obtain ⟨above, below, rfl⟩ := List.append_of_mem hrow
  rw [List.map_append, List.map_cons, List.nodup_append] at hnames
  rw [List.find?_append, List.find?_eq_none.mpr, Option.none_or, List.find?_cons_of_pos (by simp)]
  intro other hother
  simpa using hnames.2.2 _ (List.mem_map_of_mem hother) _ List.mem_cons_self

namespace GateServer

variable (reg_user : RegUserProcedure) {cfg : ConfigMgr} {parse : Bytes → Option JsonValue}
  {redis : Redis} {mysql : Mysql} {body : Bytes}

/-! ### What the property asks for -/

/-- The request submits the code that is stored under the prefix and its email, and a row of the table
matches it. -/
def MayReset (cfg : ConfigMgr) (parse : Bytes → Option JsonValue) (redis : Redis) (mysql : Mysql)
    (body : Bytes) : Prop :=
  ∃ request verifycode, GateRequest.Submitted request parse body verifycode ∧
    redis.lookup (verifyKey cfg request.email) = some (.string verifycode) ∧
    ∃ row ∈ mysql.user, request.Matches row

/-- Success is reported exactly for a request that may reset the password; it changes the password of
the row that matches and nothing else, and any other reply leaves the table as it was. -/
structure ResetsRightly (cfg : ConfigMgr) (parse : Bytes → Option JsonValue) (redis : Redis)
    (mysql : Mysql) (body : Bytes) (after : GateServer) : Prop where
  granted : after.Reports .Success ↔ MayReset cfg parse redis mysql body
  changed : after.Reports .Success → ∃ request verifycode above row below,
    GateRequest.Submitted request parse body verifycode ∧ request.Matches row ∧
    mysql.user = above ++ row :: below ∧
    after.mysql.user = above ++ { row with pwd := request.passwd } :: below
  unchanged : ¬ after.Reports .Success → after.mysql.user = mysql.user

/-! ### What the handler does -/

theorem not_reports_of_error {server : GateServer} {code : ErrorCodes} (hcode : code ≠ .Success)
    (hresponse : server.response = [LogicSystem.errorRoot code]) : ¬ server.Reports .Success := by
  rintro ⟨root, hroot, herror⟩
  rw [hresponse, List.mem_singleton] at hroot
  rw [hroot, errorRoot_error] at herror
  exact hcode (ErrorCodes.value_injective (Option.some.inj herror))

theorem run_reset_pwd_of_read {src_root : JsonValue} {request : GateRequest}
    (hparse : parse body = some src_root) (hread : request.ReadFrom src_root) :
    run reg_user (LogicSystem.reset_pwd cfg parse body) (start redis mysql) =
      run reg_user (LogicSystem.verification cfg src_root request.email
        (LogicSystem.reset_pwd_verified request.email request.user request.passwd))
        (start redis mysql) := by
  rw [LogicSystem.reset_pwd, hparse]
  exact run_readRequest_of_read _ _ hread _

/-- Without the code the handler reports an error and calls nothing. -/
theorem run_reset_pwd_of_no_text
    (hnot : ∀ request verifycode, GateRequest.Submitted request parse body verifycode →
      redis.text (verifyKey cfg request.email) ≠ some verifycode) :
    ∃ result after, run reg_user (LogicSystem.reset_pwd cfg parse body) (start redis mysql)
        = some (result, after) ∧
      after.mysql = mysql ∧ after.calls = [] ∧ ¬ after.Reports .Success := by
  have hsilent : ¬ (start redis mysql).Reports .Success := fun ⟨_, hroot, _⟩ =>
    absurd hroot List.not_mem_nil
  cases hparse : parse body with
  | none =>
      refine ⟨.ok true, { start redis mysql with response := [LogicSystem.errorRoot .Error_Json] },
        ?_, rfl, rfl, not_reports_of_error (by decide) rfl⟩
      rw [LogicSystem.reset_pwd, hparse]
      rfl
  | some src_root =>
      by_cases hread : ∃ request : GateRequest, request.ReadFrom src_root
      · obtain ⟨request, hread⟩ := hread
        rw [run_reset_pwd_of_read reg_user hparse hread]
        obtain ⟨result, response, hrun, hresponse⟩ := run_verification_of_no_text reg_user
          (start redis mysql) (fun verifycode hcode =>
            hnot request verifycode ⟨src_root, hparse, hread, hcode⟩)
          (LogicSystem.reset_pwd_verified request.email request.user request.passwd)
        refine ⟨result, _, hrun, rfl, rfl, ?_⟩
        rcases hresponse with rfl | ⟨code, hcode, rfl⟩
        · exact hsilent
        · exact not_reports_of_error hcode rfl
      · obtain ⟨e, hrun⟩ := run_readRequest_of_not_read reg_user (start redis mysql)
          (not_exists.mp hread) fun email name pwd => LogicSystem.verification cfg src_root email
            (LogicSystem.reset_pwd_verified email name pwd)
        refine ⟨.error e, start redis mysql, ?_, rfl, rfl, hsilent⟩
        rw [LogicSystem.reset_pwd, hparse]
        exact hrun

theorem run_reset_pwd_of_text {request : GateRequest} {verifycode : Bytes}
    (hsubmitted : GateRequest.Submitted request parse body verifycode)
    (htext : redis.text (verifyKey cfg request.email) = some verifycode) :
    run reg_user (LogicSystem.reset_pwd cfg parse body) (start redis mysql) =
      run reg_user (LogicSystem.reset_pwd_verified request.email request.user request.passwd
        verifycode) (start redis mysql) := by
  obtain ⟨src_root, hparse, hread, hcode⟩ := hsubmitted
  rw [run_reset_pwd_of_read reg_user hparse hread]
  exact run_verification_of_text reg_user hcode htext _

theorem checkEmail_called (email name pwd verifycode : Bytes) (server : GateServer) :
    ∃ result after, run reg_user (LogicSystem.reset_pwd_verified email name pwd verifycode) server
        = some (result, after) ∧
      .CheckEmail name email ∈ after.calls := by
  obtain ⟨result, after, hrun⟩ := run_total reg_user server
    (LogicSystem.reset_pwd_verified email name pwd verifycode)
  refine ⟨result, after, hrun, ?_⟩
  rw [LogicSystem.reset_pwd_verified, run_bind, run_CheckEmail, Option.bind_some] at hrun
  exact (run_keeps reg_user _ hrun).2.subset (List.mem_append_right _ List.mem_cons_self)

/-- A row with another email stops the handler at `CheckEmail`. -/
theorem run_reset_pwd_verified_of_other_email (hfaults : mysql.faults = []) {email name : Bytes}
    {row : UserRow} (hfind : mysql.user.find? (·.name = name) = some row)
    (hemail : email ≠ row.email) (pwd verifycode : Bytes) :
    ∃ after, run reg_user (LogicSystem.reset_pwd_verified email name pwd verifycode)
        (start redis mysql) = some (.ok true, after) ∧
      after.mysql.user = mysql.user ∧ ¬ after.Reports .Success := by
  refine ⟨{ start redis mysql with
      calls := [.CheckEmail name email]
      response := [LogicSystem.errorRoot .EmailNotMatch] }, ?_, rfl,
    not_reports_of_error (by decide) rfl⟩
  rw [LogicSystem.reset_pwd_verified, run_bind, run_CheckEmail, Option.bind_some]
  simp only [start, Mysql.run_CheckEmail reg_user hfaults, hfind, decide_eq_false hemail,
    Bool.false_eq_true, not_false_eq_true, if_true]
  rfl

/-- Without such a row it goes on to `UpdatePwd`, also when there is no row at all. -/
theorem run_reset_pwd_verified_of_no_other_email (hfaults : mysql.faults = [])
    {email name : Bytes}
    (hfind : ∀ row, mysql.user.find? (·.name = name) = some row → email = row.email)
    (pwd verifycode : Bytes) :
    ∃ after, run reg_user (LogicSystem.reset_pwd_verified email name pwd verifycode)
        (start redis mysql) = some (.ok true, after) ∧
      after.mysql.user = withPwd mysql.user name pwd ∧ after.Reports .Success := by
  have hvalid : Mysql.run reg_user (MysqlDao.CheckEmail name email) mysql = (true, mysql) := by
    rw [Mysql.run_CheckEmail reg_user hfaults]
    cases hrow : mysql.user.find? (·.name = name) with
    | none => rfl
    | some row => simp only [decide_eq_true (hfind row hrow)]
  refine ⟨?after, ?hrun, ?htable, ?hreports⟩
  case hrun =>
    rw [LogicSystem.reset_pwd_verified, run_bind, run_CheckEmail, Option.bind_some]
    simp only [start, hvalid, not_true, if_false]
    rw [run_bind, run_UpdatePwd, Option.bind_some, Mysql.run_UpdatePwd reg_user hfaults]
    simp only [not_true, if_false]
    rfl
  case htable => rfl
  case hreports => exact ⟨_, List.mem_cons_self, rfl⟩

/-! ### When the password is reset rightly -/

theorem mayReset_iff_of_submitted {request : GateRequest} {verifycode : Bytes}
    (hsubmitted : GateRequest.Submitted request parse body verifycode) :
    MayReset cfg parse redis mysql body ↔
      redis.lookup (verifyKey cfg request.email) = some (.string verifycode) ∧
        ∃ row ∈ mysql.user, request.Matches row := by
  constructor
  · rintro ⟨request', verifycode', hsubmitted', hlookup, hrow⟩
    obtain ⟨rfl, rfl⟩ := hsubmitted.unique hsubmitted'
    exact ⟨hlookup, hrow⟩
  · rintro ⟨hlookup, hrow⟩
    exact ⟨request, verifycode, hsubmitted, hlookup, hrow⟩

/-- The condition: a request that names no row does not submit the code that `Get` finds, and one
that matches a row submits that code exactly when it is the one under the prefix and the whole of its
email. -/
def CodeDecides (cfg : ConfigMgr) (redis : Redis) (mysql : Mysql) (request : GateRequest)
    (verifycode : Bytes) : Prop :=
  ((∀ row ∈ mysql.user, row.name ≠ request.user) →
    redis.text (verifyKey cfg request.email) ≠ some verifycode) ∧
  ((∃ row ∈ mysql.user, request.Matches row) →
    (redis.text (verifyKey cfg request.email) = some verifycode ↔
      redis.lookup (verifyKey cfg request.email) = some (.string verifycode)))

section Outcomes

variable {request : GateRequest} {verifycode : Bytes} {row : UserRow} {after : GateServer}
  (hnames : (mysql.user.map UserRow.name).Nodup)
  (hsubmitted : GateRequest.Submitted request parse body verifycode)

include hsubmitted

/-- Success for a name without a row is wrong, so the code must not be found. -/
theorem resetsRightly_of_no_row
    (htext : redis.text (verifyKey cfg request.email) = some verifycode)
    (hnone : ∀ row ∈ mysql.user, row.name ≠ request.user)
    (hreports : after.Reports .Success) :
    ResetsRightly cfg parse redis mysql body after ↔
      CodeDecides cfg redis mysql request verifycode := by
  apply iff_of_false
  · intro hright
    obtain ⟨-, row, hrow, hname, -⟩ :=
      (mayReset_iff_of_submitted hsubmitted).mp (hright.granted.mp hreports)
    exact hnone row hrow hname
  · exact fun hcode => hcode.1 hnone htext

include hnames

/-- Success for a row that matches is right exactly if the code is that of the request. -/
theorem resetsRightly_of_row
    (htext : redis.text (verifyKey cfg request.email) = some verifycode) (hrow : row ∈ mysql.user)
    (hmatches : request.Matches row)
    (hreports : after.Reports .Success)
    (htable : after.mysql.user = withPwd mysql.user request.user request.passwd) :
    ResetsRightly cfg parse redis mysql body after ↔
      CodeDecides cfg redis mysql request verifycode := by
  have hmay : MayReset cfg parse redis mysql body ↔ _ := mayReset_iff_of_submitted hsubmitted
  constructor
  · intro hright
    have hlookup := (hmay.mp (hright.granted.mp hreports)).1
    exact ⟨fun hnone => absurd hmatches.1 (hnone row hrow), fun _ => iff_of_true htext hlookup⟩
  · intro hcode
    have hlookup := (hcode.2 ⟨row, hrow, hmatches⟩).mp htext
    obtain ⟨above, below, huser, hwith⟩ := withPwd_of_row hnames hrow request.passwd
    refine ⟨iff_of_true hreports (hmay.mpr ⟨hlookup, row, hrow, hmatches⟩), fun _ => ?_,
      fun h => absurd hreports h⟩
    refine ⟨request, verifycode, above, row, below, hsubmitted, hmatches, huser, ?_⟩
    rw [htable, ← hmatches.1]
    exact hwith

theorem resetsRightly_of_other_email
    (hfind : mysql.user.find? (·.name = request.user) = some row)
    (hemail : request.email ≠ row.email) (hsilent : ¬ after.Reports .Success)
    (hkept : after.mysql.user = mysql.user) :
    ResetsRightly cfg parse redis mysql body after ↔
      CodeDecides cfg redis mysql request verifycode := by
  have hnone : ¬ ∃ row ∈ mysql.user, request.Matches row := by
    rintro ⟨other, hother, hname, hmatches⟩
    have hfound := find_of_row hnames hother
    rw [hname, hfind] at hfound
    obtain rfl := Option.some.inj hfound
    exact hemail hmatches.symm
  have hname : row.name = request.user := by simpa using List.find?_some hfind
  apply iff_of_true
  · refine ⟨iff_of_false hsilent fun hmay => ?_, fun h => absurd h hsilent, fun _ => hkept⟩
    exact hnone ((mayReset_iff_of_submitted hsubmitted).mp hmay).2
  · exact ⟨fun hno => absurd hname (hno row (List.mem_of_find?_eq_some hfind)),
      fun hrow => absurd hrow hnone⟩

end Outcomes

theorem resetsRightly_of_no_text {after : GateServer}
    (hnot : ∀ request verifycode, GateRequest.Submitted request parse body verifycode →
      redis.text (verifyKey cfg request.email) ≠ some verifycode)
    (hsilent : ¬ after.Reports .Success) (hkept : after.mysql = mysql) :
    ResetsRightly cfg parse redis mysql body after ↔
      ∀ request verifycode, GateRequest.Submitted request parse body verifycode →
        CodeDecides cfg redis mysql request verifycode := by
  constructor
  · intro hright request verifycode hsubmitted
    have htext := hnot request verifycode hsubmitted
    refine ⟨fun _ => htext, fun hrow => iff_of_false htext fun hlookup => ?_⟩
    exact hsilent (hright.granted.mpr ⟨request, verifycode, hsubmitted, hlookup, hrow⟩)
  · intro hall
    refine ⟨iff_of_false hsilent ?_, fun h => absurd h hsilent, fun _ => by rw [hkept]⟩
    rintro ⟨request, verifycode, hsubmitted, hlookup, hrow⟩
    exact hnot request verifycode hsubmitted
      (((hall request verifycode hsubmitted).2 hrow).mpr hlookup)

/-- **When a password is reset rightly.** With a connection for each operation, without an SQLException
and with unique names, success is reported exactly for a request that may reset the password, and the
table changes in that one password only, if and only if the condition holds of the request and the code
that the body submits. -/
theorem resets_rightly_iff (reg_user : RegUserProcedure) (cfg : ConfigMgr)
    (parse : Bytes → Option JsonValue) (redis : Redis) (mysql : Mysql) (body : Bytes)
    (hfaults : mysql.faults = []) (hnames : (mysql.user.map UserRow.name).Nodup) :
    ∃ result after, run reg_user (LogicSystem.reset_pwd cfg parse body) (start redis mysql)
        = some (result, after) ∧
      (ResetsRightly cfg parse redis mysql body after ↔
        ∀ request verifycode, GateRequest.Submitted request parse body verifycode →
          CodeDecides cfg redis mysql request verifycode) := by
  by_cases hverified : ∃ request verifycode, GateRequest.Submitted request parse body verifycode ∧
      redis.text (verifyKey cfg request.email) = some verifycode
  · obtain ⟨request, verifycode, hsubmitted, htext⟩ := hverified
    have honly : (∀ request verifycode, GateRequest.Submitted request parse body verifycode →
        CodeDecides cfg redis mysql request verifycode) ↔
        CodeDecides cfg redis mysql request verifycode := by
      refine ⟨fun hall => hall request verifycode hsubmitted, fun hcode other code hother => ?_⟩
      obtain ⟨rfl, rfl⟩ := hsubmitted.unique hother
      exact hcode
    rw [run_reset_pwd_of_text reg_user hsubmitted htext, honly]
    by_cases hfind : ∃ row, mysql.user.find? (·.name = request.user) = some row ∧
        request.email ≠ row.email
    · obtain ⟨row, hfind, hemail⟩ := hfind
      obtain ⟨after, hrun, hkept, hsilent⟩ := run_reset_pwd_verified_of_other_email reg_user hfaults
        hfind hemail request.passwd verifycode
      exact ⟨_, after, hrun,
        resetsRightly_of_other_email hnames hsubmitted hfind hemail hsilent hkept⟩
    · simp only [not_exists, not_and, not_not] at hfind
      obtain ⟨after, hrun, htable, hreports⟩ := run_reset_pwd_verified_of_no_other_email reg_user
        hfaults hfind request.passwd verifycode
      refine ⟨_, after, hrun, ?_⟩
      by_cases hrow : ∃ row ∈ mysql.user, row.name = request.user
      · obtain ⟨row, hrow, hname⟩ := hrow
        have hfound := find_of_row hnames hrow
        rw [hname] at hfound
        exact resetsRightly_of_row hnames hsubmitted htext hrow ⟨hname, (hfind row hfound).symm⟩
          hreports htable
      · have hnone : ∀ row ∈ mysql.user, row.name ≠ request.user := fun row hmem hname =>
          hrow ⟨row, hmem, hname⟩
        exact resetsRightly_of_no_row hsubmitted htext hnone hreports
  · simp only [not_exists, not_and] at hverified
    obtain ⟨result, after, hrun, hkept, -, hsilent⟩ :=
      run_reset_pwd_of_no_text reg_user hverified
    exact ⟨result, after, hrun, resetsRightly_of_no_text hverified hsilent hkept⟩

/-! ### A user and no user -/

def resetBody : Bytes :=
  ascii "\x7b\"email\":\"e\",\"user\":\"u\",\"passwd\":\"p\",\"verifycode\":\"123456\"\x7d"

def resetRoot : JsonValue :=
  .object [(ascii "email", .string (ascii "e")), (ascii "passwd", .string (ascii "p")),
    (ascii "user", .string (ascii "u")), (ascii "verifycode", .string (ascii "123456"))]

def parseReset (body : Bytes) : Option JsonValue := if body = resetBody then some resetRoot else none

def resetRedis : Redis := Redis.init.put (ascii "e") (some (.string (ascii "123456"), none))

theorem resets_rightly_one_user :
    ∃ result after, run (fun user _ _ _ => (0, user))
        (LogicSystem.reset_pwd ⟨[]⟩ parseReset resetBody)
        (start resetRedis ⟨[⟨1, ascii "u", ascii "e", ascii "q"⟩], 0, []⟩) = some (result, after) ∧
      ResetsRightly ⟨[]⟩ parseReset resetRedis ⟨[⟨1, ascii "u", ascii "e", ascii "q"⟩], 0, []⟩
        resetBody after := by
  obtain ⟨result, after, hrun, hiff⟩ := resets_rightly_iff (fun user _ _ _ => (0, user)) ⟨[]⟩
    parseReset resetRedis ⟨[⟨1, ascii "u", ascii "e", ascii "q"⟩], 0, []⟩ resetBody rfl
    (List.nodup_singleton _)
  refine ⟨result, after, hrun, hiff.mpr ?_⟩
  rintro ⟨email, user, passwd⟩ verifycode ⟨src_root, hparse, hread, hcode⟩
  obtain rfl := Option.some.inj hparse
  obtain rfl : ascii "e" = email := Except.ok.inj hread.email
  obtain rfl : ascii "u" = user := Except.ok.inj hread.user
  obtain rfl : ascii "123456" = verifycode := Except.ok.inj hcode
  exact ⟨fun hnone => absurd rfl (hnone _ List.mem_cons_self), fun _ => iff_of_true rfl rfl⟩

/-- Success is reported for a user that is not there. -/
theorem resets_no_user :
    ∃ result after, run (fun user _ _ _ => (0, user))
        (LogicSystem.reset_pwd ⟨[]⟩ parseReset resetBody) (start resetRedis ⟨[], 0, []⟩)
        = some (result, after) ∧
      after.Reports .Success ∧
      ¬ ResetsRightly ⟨[]⟩ parseReset resetRedis ⟨[], 0, []⟩ resetBody after := by
  refine ⟨.ok true, _, rfl, ⟨_, List.mem_cons_self, rfl⟩, fun hright => ?_⟩
  obtain ⟨-, -, -, -, row, hrow, -⟩ := hright.granted.mp ⟨_, List.mem_cons_self, rfl⟩
  exact List.not_mem_nil hrow

end GateServer

end QuickChat
