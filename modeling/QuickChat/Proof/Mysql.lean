import QuickChat.Common.Mysql

/-!
# What the data access functions do to the table

Without an SQLException a `try` block is a function of the server, and so is each of the data access
functions: `CheckEmail` compares with the first row of the name and is content when there is none,
`UpdatePwd` sets the password of the rows of the name, of which there may be none.
-/

namespace QuickChat

open MysqlDao

namespace Mysql

variable {α β : Type} (reg_user : RegUserProcedure) (db : Mysql)

@[simp]
theorem run_ret (value : α) : run reg_user (Program.ret value) db = (value, db) := rfl

@[simp]
theorem run_bind (program : MysqlProgram Unit α) (second : α → MysqlProgram Unit β) :
    run reg_user (program >>= second) db =
      run reg_user (second (run reg_user program db).1) (run reg_user program db).2 := by
  rw [run, Program.interp_bind]
  rfl

@[simp]
theorem run_getConnection : run reg_user getConnection db = (some (), db) := rfl

@[simp]
theorem run_returnConnection (con : Option Unit) :
    run reg_user (returnConnection con) db = ((), db) := rfl

/-! ### Inside a try block -/

def runTry (block : MysqlTry Unit α) (db : Mysql) : Except SQLException α × Mysql :=
  run reg_user block.run db

@[simp]
theorem runTry_pure (value : α) : runTry reg_user (pure value) db = (.ok value, db) := rfl

/-- **The rule of composition.** An exception leaves the block. -/
theorem runTry_bind (block : MysqlTry Unit α) (second : α → MysqlTry Unit β) :
    runTry reg_user (block >>= second) db =
      match runTry reg_user block db with
      | (.ok value, db) => runTry reg_user (second value) db
      | (.error e, db) => (.error e, db) := by
  rw [runTry, ExceptT.run_bind, run_bind]
  cases hblock : runTry reg_user block db with
  | mk result db' =>
      rw [show run reg_user block.run db = (result, db') from hblock]
      cases result with
      | error e => rfl
      | ok value => rfl

theorem runTry_bind_ok {block : MysqlTry Unit α} {value : α} {db' : Mysql}
    (hblock : runTry reg_user block db = (.ok value, db')) (second : α → MysqlTry Unit β) :
    runTry reg_user (block >>= second) db = runTry reg_user (second value) db' := by
  rw [runTry_bind, hblock]

@[simp]
theorem runTry_lift (program : MysqlProgram Unit α) :
    runTry reg_user (liftM program) db =
      (.ok (run reg_user program db).1, (run reg_user program db).2) := by
  rw [runTry, show (liftM program : MysqlTry Unit α).run = Except.ok <$> program from rfl,
    map_eq_pure_bind, run_bind]
  rfl

@[simp]
theorem runTry_owning (object : SqlObject) (block : MysqlTry Unit α) :
    runTry reg_user (owning object block) db = runTry reg_user block db := by
  rw [runTry, owning, ExceptT.run_mk, run_bind]
  rfl

theorem run_tryCatch (block : MysqlTry Unit α) (handler : MysqlProgram Unit α) :
    run reg_user (MysqlDao.tryCatch block handler) db =
      match runTry reg_user block db with
      | (.ok value, db) => (value, db)
      | (.error _, db) => run reg_user handler db := by
  rw [MysqlDao.tryCatch, run_bind]
  cases hblock : runTry reg_user block db with
  | mk result db' =>
      rw [show run reg_user block.run db = (result, db') from hblock]
      cases result with
      | error e => rfl
      | ok value => rfl

/-! ### Operations that may raise -/

/-- The operation that comes after `n` others raises. -/
def raisesAt (db : Mysql) (n : Nat) : Prop := db.faults[n]? = some true

instance (n : Nat) : Decidable (db.raisesAt n) := inferInstanceAs (Decidable (_ = _))

/-- The server after `n` operations that change neither the table nor the session. -/
def skip (db : Mysql) (n : Nat) : Mysql := { db with faults := db.faults.drop n }

@[simp]
theorem skip_raisesAt (m n : Nat) : (db.skip m).raisesAt n ↔ db.raisesAt (m + n) := by
  rw [raisesAt, raisesAt, skip, List.getElem?_drop]

@[simp]
theorem skip_skip (m n : Nat) : (db.skip m).skip n = db.skip (m + n) := by
  rw [skip, skip, skip, List.drop_drop]

theorem attempt_eq (operation : Mysql → Except SQLException α × Mysql) :
    attempt operation db
      = if db.raisesAt 0 then (.error .raised, db.skip 1) else operation (db.skip 1) := by
  obtain ⟨user, result, faults⟩ := db
  match faults with
  | [] => rfl
  | true :: faults => rfl
  | false :: faults => rfl

/-- What comes behind an operation that raises is not run. -/
theorem runTry_bind_attempt {block : MysqlTry Unit α} {value : α} {db' : Mysql}
    (hblock : runTry reg_user block db
      = if db.raisesAt 0 then (.error .raised, db.skip 1) else (.ok value, db'))
    (second : α → MysqlTry Unit β) :
    runTry reg_user (block >>= second) db
      = if db.raisesAt 0 then (.error .raised, db.skip 1) else runTry reg_user (second value) db' := by
  rw [runTry_bind, hblock]
  by_cases hraises : db.raisesAt 0
  · rw [if_pos hraises, if_pos hraises]
  · rw [if_neg hraises, if_neg hraises]

theorem runTry_bind_client {block : MysqlTry Unit Unit}
    (hblock : runTry reg_user block db = attempt (fun db => (.ok (), db)) db)
    (second : Unit → MysqlTry Unit β) :
    runTry reg_user (block >>= second) db
      = if db.raisesAt 0 then (.error .raised, db.skip 1)
        else runTry reg_user (second ()) (db.skip 1) :=
  runTry_bind_attempt reg_user db (hblock.trans (attempt_eq db _)) second

theorem attempt_prepareStatement (con : Option Unit) (sql : String) :
    runTry reg_user (prepareStatement con sql) db
      = if db.raisesAt 0 then (.error .raised, db.skip 1)
        else (.ok ⟨con, sql, fun _ => []⟩, db.skip 1) := by
  rw [prepareStatement, runTry_bind_client reg_user db rfl]
  rfl

theorem attempt_setString (stmt : PreparedStatement Unit) (index : Nat) (value : Bytes) :
    runTry reg_user (setString stmt index value) db
      = if db.raisesAt 0 then (.error .raised, db.skip 1)
        else (.ok { stmt with params := Function.update stmt.params index value }, db.skip 1) := by
  rw [setString, runTry_bind_client reg_user db rfl]
  rfl

theorem attempt_createStatement (con : Option Unit) :
    runTry reg_user (createStatement con) db
      = if db.raisesAt 0 then (.error .raised, db.skip 1) else (.ok (), db.skip 1) :=
  attempt_eq db fun db => (.ok (), db)

theorem attempt_execute (stmt : PreparedStatement Unit) :
    runTry reg_user (MysqlDao.execute stmt) db
      = if db.raisesAt 0 then (.error .raised, db.skip 1)
        else (db.skip 1).execute reg_user stmt.sql stmt.params :=
  attempt_eq db fun db => db.execute reg_user stmt.sql stmt.params

theorem attempt_executeUpdate (stmt : PreparedStatement Unit) :
    runTry reg_user (MysqlDao.executeUpdate stmt) db
      = if db.raisesAt 0 then (.error .raised, db.skip 1)
        else (db.skip 1).executeUpdate stmt.sql stmt.params :=
  attempt_eq db fun db => db.executeUpdate stmt.sql stmt.params

theorem attempt_executeQuery (con : Option Unit) (sql : String) (params : Nat → Bytes) :
    runTry reg_user (MysqlDao.executeQuery con sql params) db
      = if db.raisesAt 0 then (.error .raised, db.skip 1)
        else (((db.skip 1).executeQuery sql params).1.map fun rows => ⟨none, rows⟩,
          ((db.skip 1).executeQuery sql params).2) := by
  have hquery : runTry reg_user
      (ExceptT.mk (Program.perform (PoolEffect.other (MysqlEffect.executeQuery con sql params)))) db
        = if db.raisesAt 0 then (.error .raised, db.skip 1)
          else (db.skip 1).executeQuery sql params :=
    attempt_eq db fun db => db.executeQuery sql params
  rw [MysqlDao.executeQuery, runTry_bind, hquery]
  by_cases hraises : db.raisesAt 0
  · rw [if_pos hraises, if_pos hraises]
  · rw [if_neg hraises, if_neg hraises]
    cases (db.skip 1).executeQuery sql params with
    | mk rows db' => cases rows <;> rfl

theorem attempt_next (res : ResultSet) :
    runTry reg_user (MysqlDao.next res) db
      = if db.raisesAt 0 then (.error .raised, db.skip 1)
        else (.ok (match res.rows with
          | [] => (false, ⟨none, []⟩)
          | row :: rows => (true, ⟨some row, rows⟩)), db.skip 1) := by
  rw [MysqlDao.next, runTry_bind_client reg_user db rfl]
  cases res.rows with
  | nil => rfl
  | cons row rows => rfl

theorem attempt_getString (res : ResultSet) (name : String) :
    runTry reg_user (getString res name) db
      = if db.raisesAt 0 then (.error .raised, db.skip 1)
        else ((column res name).map fun
          | .string s => s
          | .int n => Text.to_string n, db.skip 1) := by
  rw [getString, runTry_bind_client reg_user db rfl]
  cases column res name with
  | error e => rfl
  | ok value => cases value <;> rfl

theorem attempt_getInt {res : ResultSet} {name : String} {n : Int}
    (hcolumn : column res name = .ok (.int n)) :
    runTry reg_user (getInt res name) db
      = if db.raisesAt 0 then (.error .raised, db.skip 1) else (.ok n, db.skip 1) := by
  rw [getInt, runTry_bind_client reg_user db rfl, hcolumn]
  rfl

/-! ### Without an exception -/

section NoFaults

variable {db : Mysql} (hfaults : db.faults = [])

include hfaults

theorem not_raisesAt (n : Nat) : ¬ db.raisesAt n := by
  rw [raisesAt, hfaults]
  simp

theorem skip_eq_self (n : Nat) : db.skip n = db := by
  rw [skip, hfaults, List.drop_nil, ← hfaults]

theorem runTry_prepareStatement (con : Option Unit) (sql : String) :
    runTry reg_user (prepareStatement con sql) db = (.ok ⟨con, sql, fun _ => []⟩, db) := by
  rw [attempt_prepareStatement, if_neg (not_raisesAt hfaults 0), skip_eq_self hfaults]

theorem runTry_setString (stmt : PreparedStatement Unit) (index : Nat) (value : Bytes) :
    runTry reg_user (setString stmt index value) db
      = (.ok { stmt with params := Function.update stmt.params index value }, db) := by
  rw [attempt_setString, if_neg (not_raisesAt hfaults 0), skip_eq_self hfaults]

theorem runTry_createStatement (con : Option Unit) :
    runTry reg_user (createStatement con) db = (.ok (), db) := by
  rw [attempt_createStatement, if_neg (not_raisesAt hfaults 0), skip_eq_self hfaults]

theorem runTry_execute (stmt : PreparedStatement Unit) :
    runTry reg_user (MysqlDao.execute stmt) db = db.execute reg_user stmt.sql stmt.params := by
  rw [attempt_execute, if_neg (not_raisesAt hfaults 0), skip_eq_self hfaults]

theorem runTry_executeUpdate (stmt : PreparedStatement Unit) :
    runTry reg_user (MysqlDao.executeUpdate stmt) db = db.executeUpdate stmt.sql stmt.params := by
  rw [attempt_executeUpdate, if_neg (not_raisesAt hfaults 0), skip_eq_self hfaults]

theorem runTry_executeQuery (con : Option Unit) (sql : String) (params : Nat → Bytes) :
    runTry reg_user (MysqlDao.executeQuery con sql params) db =
      ((db.executeQuery sql params).1.map fun rows => ⟨none, rows⟩,
        (db.executeQuery sql params).2) := by
  rw [attempt_executeQuery, if_neg (not_raisesAt hfaults 0), skip_eq_self hfaults]

theorem runTry_next (res : ResultSet) :
    runTry reg_user (MysqlDao.next res) db =
      (.ok (match res.rows with
        | [] => (false, ⟨none, []⟩)
        | row :: rows => (true, ⟨some row, rows⟩)), db) := by
  rw [attempt_next, if_neg (not_raisesAt hfaults 0), skip_eq_self hfaults]

theorem runTry_getString {res : ResultSet} {name : String} {s : Bytes}
    (hcolumn : column res name = .ok (.string s)) :
    runTry reg_user (getString res name) db = (.ok s, db) := by
  rw [attempt_getString, if_neg (not_raisesAt hfaults 0), skip_eq_self hfaults, hcolumn]
  rfl

theorem runTry_getString_of_error {res : ResultSet} {name : String} {e : SQLException}
    (hcolumn : column res name = .error e) :
    runTry reg_user (getString res name) db = (.error e, db) := by
  rw [attempt_getString, if_neg (not_raisesAt hfaults 0), skip_eq_self hfaults, hcolumn]
  rfl

theorem runTry_getInt {res : ResultSet} {name : String} {n : Int}
    (hcolumn : column res name = .ok (.int n)) :
    runTry reg_user (getInt res name) db = (.ok n, db) := by
  rw [attempt_getInt reg_user db hcolumn, if_neg (not_raisesAt hfaults 0), skip_eq_self hfaults]

/-- Without exceptions, the function returns what the procedure says. -/
theorem run_RegUser (name email pwd : Bytes) :
    run reg_user (RegUser name email pwd) db =
      ((reg_user db.user name email pwd).1,
        { db with
          user := (reg_user db.user name email pwd).2
          result := (reg_user db.user name email pwd).1 }) := by
  obtain ⟨db', hdb⟩ : ∃ db' : Mysql, db' = { db with
      user := (reg_user db.user name email pwd).2
      result := (reg_user db.user name email pwd).1 } := ⟨_, rfl⟩
  have hfaults' : db'.faults = [] := by rw [hdb, hfaults]
  have hexecute (params : Nat → Bytes) (hname : params 1 = name) (hemail : params 2 = email)
      (hpwd : params 3 = pwd) :
      runTry reg_user (MysqlDao.execute ⟨some (), "CALL reg_user(?,?,?,@result)", params⟩) db
        = (.ok (), db') := by
    rw [runTry_execute reg_user hfaults, Mysql.execute, if_pos rfl]
    simp only [hname, hemail, hpwd, hdb]
  rw [RegUser, run_bind, run_getConnection, run_tryCatch]
  simp only [Option.isNone_some, Bool.false_eq_true, if_false]
  rw [runTry_bind_ok _ _ (runTry_prepareStatement reg_user hfaults _ _), runTry_owning,
    runTry_bind_ok _ _ (runTry_setString reg_user hfaults _ _ _),
    runTry_bind_ok _ _ (runTry_setString reg_user hfaults _ _ _),
    runTry_bind_ok _ _ (runTry_setString reg_user hfaults _ _ _),
    runTry_bind_ok _ _ (hexecute _ rfl rfl rfl),
    runTry_bind_ok _ _ (runTry_createStatement reg_user hfaults' _), runTry_owning,
    runTry_bind_ok _ _ ((runTry_executeQuery reg_user hfaults' _ _ _).trans
      (show _ = (Except.ok ⟨none, [[("result", SqlValue.int db'.result)]]⟩, db') from rfl)),
    runTry_owning, runTry_bind_ok _ _ (runTry_next reg_user hfaults' _)]
  simp only [if_true]
  rw [runTry_bind_ok _ _ (runTry_getInt reg_user hfaults' rfl), hdb]
  rfl

/-- `CheckEmail` compares with the first row of the name, and is content when there is none. -/
theorem run_CheckEmail (name email : Bytes) :
    run reg_user (CheckEmail name email) db =
      (match db.user.find? (·.name = name) with
        | none => true
        | some row => decide (email = row.email), db) := by
  rw [CheckEmail, run_bind, run_getConnection, run_tryCatch]
  simp only [Option.isNone_some, Bool.false_eq_true, if_false]
  rw [runTry_bind_ok _ _ (runTry_prepareStatement reg_user hfaults _ _), runTry_owning,
    runTry_bind_ok _ _ (runTry_setString reg_user hfaults _ _ _),
    runTry_bind_ok _ _ ((runTry_executeQuery reg_user hfaults _ _ _).trans
      (show _ = (Except.ok ⟨none, (db.user.filter (·.name = name)).map fun row =>
        [("email", SqlValue.string row.email)]⟩, db) from rfl)),
    runTry_owning, runTry_bind_ok _ _ (runTry_next reg_user hfaults _), ← List.head?_filter]
  cases db.user.filter (·.name = name) with
  | nil => rfl
  | cons row rows =>
      simp only [List.map_cons, if_true, List.head?_cons]
      rw [runTry_bind_ok _ _ (runTry_getString reg_user hfaults rfl),
        runTry_bind_ok _ _ (runTry_getString reg_user hfaults rfl)]
      by_cases hemail : email = row.email
      · rw [if_neg (not_not_intro hemail), decide_eq_true hemail]
        rfl
      · rw [if_pos hemail, decide_eq_false hemail]
        rfl

/-- `UpdatePwd` sets the password of every row of the name, and is content when there is none. -/
theorem run_UpdatePwd (name newpwd : Bytes) :
    run reg_user (UpdatePwd name newpwd) db =
      (true, { db with user := db.user.map fun row =>
        if row.name = name then { row with pwd := newpwd } else row }) := by
  rw [UpdatePwd, run_bind, run_getConnection, run_tryCatch]
  simp only [Option.isNone_some, Bool.false_eq_true, if_false]
  rw [runTry_bind_ok _ _ (runTry_prepareStatement reg_user hfaults _ _), runTry_owning,
    runTry_bind_ok _ _ (runTry_setString reg_user hfaults _ _ _),
    runTry_bind_ok _ _ (runTry_setString reg_user hfaults _ _ _),
    runTry_bind_ok _ _ ((runTry_executeUpdate reg_user hfaults _).trans rfl), runTry_bind,
    runTry_lift]
  rfl

/-- `CheckPwd` compares with the first row of the name. When there is none, the empty password gets past
the comparison, and reading the email of no row raises. -/
theorem run_CheckPwd (name pwd : Bytes) :
    run reg_user (CheckPwd name pwd) db =
      (match db.user.find? (·.name = name) with
        | none => none
        | some row => if pwd = row.pwd then some ⟨name, row.pwd, row.uid, row.email⟩ else none, db) := by
  rw [CheckPwd, run_bind, run_getConnection, run_bind, run_tryCatch]
  simp only [Option.isNone_some, Bool.false_eq_true, if_false]
  rw [runTry_bind_ok _ _ (runTry_prepareStatement reg_user hfaults _ _), runTry_owning,
    runTry_bind_ok _ _ (runTry_setString reg_user hfaults _ _ _),
    runTry_bind_ok _ _ ((runTry_executeQuery reg_user hfaults _ _ _).trans
      (show _ = (Except.ok ⟨none, (db.user.filter (·.name = name)).map fun row =>
        [("uid", SqlValue.int row.uid), ("name", .string row.name), ("email", .string row.email),
          ("pwd", .string row.pwd)]⟩, db) from rfl)),
    runTry_owning, runTry_bind_ok _ _ (runTry_next reg_user hfaults _), ← List.head?_filter]
  cases db.user.filter (·.name = name) with
  | nil =>
      simp only [List.map_nil, Bool.false_eq_true, if_false, List.head?_nil]
      rw [runTry_bind_ok _ _ (runTry_pure reg_user db [])]
      by_cases hpwd : pwd = []
      · rw [if_neg (not_not_intro hpwd), runTry_bind,
          runTry_getString_of_error reg_user hfaults rfl]
        rfl
      · rw [if_pos hpwd]
        rfl
  | cons row rows =>
      simp only [List.map_cons, if_true, List.head?_cons]
      rw [runTry_bind_ok _ _ (runTry_getString reg_user hfaults rfl)]
      by_cases hpwd : pwd = row.pwd
      · rw [if_neg (not_not_intro hpwd), if_pos hpwd,
          runTry_bind_ok _ _ (runTry_getString reg_user hfaults rfl),
          runTry_bind_ok _ _ (runTry_getInt reg_user hfaults rfl)]
        rfl
      · rw [if_pos hpwd, if_neg hpwd]
        rfl

end NoFaults

end Mysql

end QuickChat
