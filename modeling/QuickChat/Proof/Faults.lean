import QuickChat.Proof.RegUser
import QuickChat.Proof.ResetPwd

/-!
# What the data access functions leave behind

Any of their operations may raise. The table is then as it was, or it is as the one statement that
changes it leaves it; `CheckEmail` says yes only to an email that no row of the name contradicts, and
`CheckPwd` lets in only whoever names a row and its password.
-/

namespace QuickChat

open Text MysqlDao

namespace Mysql

variable {α β : Type} {reg_user : RegUserProcedure} {db db' : Mysql} {name email pwd : Bytes}

/-- What the block comes to and the table that it leaves, whichever operations raise. -/
def Leaves (reg_user : RegUserProcedure) (block : MysqlTry Unit α) (db : Mysql)
    (Q : Except SQLException α → List UserRow → Prop) : Prop :=
  Q (runTry reg_user block db).1 (runTry reg_user block db).2.user

section Rules

variable {Q : Except SQLException α → List UserRow → Prop}

theorem leaves_owning {object : SqlObject} {block : MysqlTry Unit α} :
    Leaves reg_user (owning object block) db Q ↔ Leaves reg_user block db Q := by
  rw [Leaves, runTry_owning, Leaves]

/-- **The rule of composition.** The first operation raises, or the second block runs on what it
leaves. -/
theorem Leaves.bind {block : MysqlTry Unit β} {second : β → MysqlTry Unit α} {value : β}
    (hblock : runTry reg_user block db
      = if db.raisesAt 0 then (.error .raised, db.skip 1) else (.ok value, db'))
    (hraised : Q (.error .raised) db.user) (hsecond : Leaves reg_user (second value) db' Q) :
    Leaves reg_user (block >>= second) db Q := by
  rw [Leaves, runTry_bind_attempt reg_user db hblock]
  by_cases hraises : db.raisesAt 0
  · rw [if_pos hraises]
    exact hraised
  · rw [if_neg hraises]
    exact hsecond

/-- A raised error counts as the value of the handler, with the table as it is then. -/
theorem Leaves.tryCatch {block : MysqlTry Unit α} {handler : MysqlProgram Unit α}
    {P : α → List UserRow → Prop} (caught : α)
    (hblock : Leaves reg_user block db fun outcome user => P (outcome.toOption.getD caught) user)
    (hhandler : ∀ db, run reg_user handler db = (caught, db)) :
    P (run reg_user (MysqlDao.tryCatch block handler) db).1
      (run reg_user (MysqlDao.tryCatch block handler) db).2.user := by
  rw [Leaves] at hblock
  rw [run_tryCatch]
  cases hrun : runTry reg_user block db with
  | mk outcome final =>
      rw [hrun] at hblock
      cases outcome with
      | ok value => exact hblock
      | error e =>
          dsimp only
          rw [hhandler]
          exact hblock

end Rules

theorem attempt_string {res : ResultSet} {key : String} {value : Bytes}
    (hcolumn : column res key = .ok (.string value)) :
    runTry reg_user (getString res key) db
      = if db.raisesAt 0 then (.error .raised, db.skip 1) else (.ok value, db.skip 1) := by
  rw [attempt_getString, hcolumn]
  rfl

theorem attempt_emailQuery {params : Nat → Bytes} {rows : List UserRow} (hname : params 1 = name)
    (hrows : db.user.filter (·.name = name) = rows) :
    runTry reg_user (MysqlDao.executeQuery (some ()) "SELECT email FROM user WHERE name = ?" params) db
      = if db.raisesAt 0 then (.error .raised, db.skip 1)
        else (.ok ⟨none, rows.map fun row => [("email", SqlValue.string row.email)]⟩, db.skip 1) := by
  subst hname hrows
  rw [attempt_executeQuery]
  rfl

/-- `CheckEmail` changes nothing, and whoever gets a yes has named the email of the name. -/
theorem checkEmail_leaves (reg_user : RegUserProcedure) (db : Mysql) (name email : Bytes) :
    (run reg_user (CheckEmail name email) db).2.user = db.user ∧
      ((run reg_user (CheckEmail name email) db).1 = true →
        ∀ row, db.user.find? (·.name = name) = some row → email = row.email) := by
  rw [CheckEmail, run_bind, run_getConnection]
  simp only [Option.isNone_some, Bool.false_eq_true, if_false]
  refine Leaves.tryCatch
    (P := fun valid user => user = db.user ∧
      (valid = true → ∀ row, db.user.find? (·.name = name) = some row → email = row.email))
    false ?_ fun _ => rfl
  have hraised {found : Option UserRow} : db.user = db.user ∧
      (false = true → ∀ row, found = some row → email = row.email) :=
    ⟨rfl, fun hyes => absurd hyes (by decide)⟩
  apply Leaves.bind (attempt_prepareStatement _ _ _ _) hraised
  rw [leaves_owning]
  apply Leaves.bind (attempt_setString _ _ _ _ _) hraised
  rw [← List.head?_filter]
  cases hrows : db.user.filter (·.name = name) with
  | nil =>
      apply Leaves.bind (attempt_emailQuery rfl hrows) hraised
      rw [leaves_owning]
      apply Leaves.bind (attempt_next _ _ _) hraised
      exact ⟨rfl, fun _ row hrow => absurd hrow (by simp)⟩
  | cons row rows =>
      apply Leaves.bind (attempt_emailQuery rfl hrows) hraised
      rw [leaves_owning]
      apply Leaves.bind (attempt_next _ _ _) hraised
      apply Leaves.bind (attempt_string rfl) hraised
      apply Leaves.bind (attempt_string rfl) hraised
      by_cases hemail : email = row.email
      · rw [if_neg (not_not_intro hemail)]
        exact ⟨rfl, fun _ other hother => Option.some.inj hother ▸ hemail⟩
      · rw [if_pos hemail]
        exact hraised

theorem attempt_rowsQuery {params : Nat → Bytes} {rows : List UserRow} (hname : params 1 = name)
    (hrows : db.user.filter (·.name = name) = rows) :
    runTry reg_user (MysqlDao.executeQuery (some ()) "SELECT * FROM user WHERE name = ?" params) db
      = if db.raisesAt 0 then (.error .raised, db.skip 1)
        else (.ok ⟨none, rows.map fun row => [("uid", SqlValue.int row.uid), ("name", .string row.name),
          ("email", .string row.email), ("pwd", .string row.pwd)]⟩, db.skip 1) := by
  subst hname hrows
  rw [attempt_executeQuery]
  rfl

theorem runTry_getString_none {res : ResultSet} {key : String}
    (hcolumn : column res key = .error .raised) :
    runTry reg_user (getString res key) db = (.error .raised, db.skip 1) := by
  rw [attempt_getString, hcolumn]
  exact ite_self _

/-- `CheckPwd` changes nothing, and whoever is let in has named a row and its password. -/
theorem checkPwd_leaves (reg_user : RegUserProcedure) (db : Mysql) (name pwd : Bytes) :
    (run reg_user (CheckPwd name pwd) db).2.user = db.user ∧
      ∀ userInfo, (run reg_user (CheckPwd name pwd) db).1 = some userInfo →
        ∃ row ∈ db.user, row.name = name ∧ row.pwd = pwd ∧ row.uid = userInfo.uid := by
  have hreturned (found : Option UserInfo × Mysql) :
      run reg_user (returnConnection (some ()) >>= fun _ => pure found.1) found.2 = found := rfl
  rw [CheckPwd, run_bind, run_getConnection, run_bind, hreturned]
  simp only [Option.isNone_some, Bool.false_eq_true, if_false]
  refine Leaves.tryCatch
    (P := fun (found : Option UserInfo) user => user = db.user ∧ ∀ userInfo, found = some userInfo →
      ∃ row ∈ db.user, row.name = name ∧ row.pwd = pwd ∧ row.uid = userInfo.uid)
    none ?_ fun _ => rfl
  have hnone {Q : UserInfo → Prop} : db.user = db.user ∧
      ∀ userInfo, (none : Option UserInfo) = some userInfo → Q userInfo :=
    ⟨rfl, fun _ hsome => absurd hsome (by simp)⟩
  apply Leaves.bind (attempt_prepareStatement _ _ _ _) hnone
  rw [leaves_owning]
  apply Leaves.bind (attempt_setString _ _ _ _ _) hnone
  cases hrows : db.user.filter (·.name = name) with
  | nil =>
      apply Leaves.bind (attempt_rowsQuery rfl hrows) hnone
      rw [leaves_owning]
      apply Leaves.bind (attempt_next _ _ _) hnone
      simp only [List.map_nil, Bool.false_eq_true, if_false]
      rw [Leaves, runTry_bind_ok _ _ (runTry_pure _ _ [])]
      by_cases hpwd : pwd = []
      · rw [if_neg (not_not_intro hpwd)]
        rw [runTry_bind, runTry_getString_none rfl]
        exact hnone
      · rw [if_pos hpwd]
        exact hnone
  | cons row rows =>
      have hrow : row ∈ db.user ∧ row.name = name := by
        have hmem : row ∈ db.user.filter (·.name = name) := hrows ▸ List.mem_cons_self
        simpa using List.mem_filter.mp hmem
      apply Leaves.bind (attempt_rowsQuery rfl hrows) hnone
      rw [leaves_owning]
      apply Leaves.bind (attempt_next _ _ _) hnone
      apply Leaves.bind (attempt_string rfl) hnone
      by_cases hpwd : pwd = row.pwd
      · rw [if_neg (not_not_intro hpwd)]
        apply Leaves.bind (attempt_string rfl) hnone
        apply Leaves.bind (attempt_getInt _ _ rfl) hnone
        refine ⟨rfl, fun userInfo hfound => ?_⟩
        obtain rfl := Option.some.inj hfound
        exact ⟨row, hrow.1, hrow.2, hpwd.symm, rfl⟩
      · rw [if_pos hpwd]
        exact hnone

/-- `UpdatePwd` sets the password of the name, or does nothing and says so. -/
theorem updatePwd_leaves (reg_user : RegUserProcedure) (db : Mysql) (name newpwd : Bytes) :
    (run reg_user (UpdatePwd name newpwd) db).2.user = db.user ∧
        (run reg_user (UpdatePwd name newpwd) db).1 = false ∨
      (run reg_user (UpdatePwd name newpwd) db).2.user = withPwd db.user name newpwd := by
  rw [UpdatePwd, run_bind, run_getConnection]
  simp only [Option.isNone_some, Bool.false_eq_true, if_false]
  refine Leaves.tryCatch
    (P := fun updated user => user = db.user ∧ updated = false ∨ user = withPwd db.user name newpwd)
    false ?_ fun _ => rfl
  have hraised : db.user = db.user ∧ false = false ∨ db.user = withPwd db.user name newpwd :=
    .inl ⟨rfl, rfl⟩
  apply Leaves.bind (attempt_prepareStatement _ _ _ _) hraised
  rw [leaves_owning]
  apply Leaves.bind (attempt_setString _ _ _ _ _) hraised
  apply Leaves.bind (attempt_setString _ _ _ _ _) hraised
  apply Leaves.bind (attempt_executeUpdate _ _ _) hraised
  exact .inr rfl

/-- `RegUser` calls the procedure, and returns its result or -1, or it does nothing and returns -1. -/
theorem regUser_leaves (reg_user : RegUserProcedure) (db : Mysql) (name email pwd : Bytes) :
    (run reg_user (RegUser name email pwd) db).2.user = db.user ∧
        (run reg_user (RegUser name email pwd) db).1 = -1 ∨
      (run reg_user (RegUser name email pwd) db).2.user = (reg_user db.user name email pwd).2 ∧
        ((run reg_user (RegUser name email pwd) db).1 = -1 ∨
          (run reg_user (RegUser name email pwd) db).1 = (reg_user db.user name email pwd).1) := by
  by_cases hearly : db.raisesBefore 5
  · have hregisters : Registers reg_user db name email pwd (-1) db.user := registers_of_early hearly
    exact .inl ⟨hregisters.table, hregisters.returned⟩
  · refine .inr ?_
    by_cases hraises : (db.called reg_user name email pwd).raisesBefore 4
    · have hregisters := registers_of_called hearly (ends_readResult_raising hraises)
      exact ⟨hregisters.table, .inl hregisters.returned⟩
    · have hregisters := registers_of_called hearly (ends_readResult_quiet hraises)
      exact ⟨hregisters.table, .inr hregisters.returned⟩

end Mysql

end QuickChat
