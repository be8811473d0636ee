import QuickChat.Proof.Accounts

/-!
# `RegUser` when an operation raises

`RegUser` makes nine operations: it prepares the call of the procedure, sets its three arguments and
executes it, and then creates a second statement, queries it, and reads the result from the row. Where
one of the first five raises nothing has happened. Where one of the last four does the procedure has
taken effect, and the caller is told -1 all the same.
-/

namespace QuickChat

open Text MysqlDao

namespace Mysql

variable {α β : Type} {reg_user : RegUserProcedure} {db db' : Mysql} {name email pwd : Bytes}

def raisesBefore (db : Mysql) (n : Nat) : Prop := ∃ k < n, db.raisesAt k

instance (n : Nat) : Decidable (db.raisesBefore n) :=
  inferInstanceAs (Decidable (∃ k < n, db.raisesAt k))

theorem raisesBefore_add {m n : Nat} :
    db.raisesBefore (m + n) ↔ db.raisesBefore m ∨ (db.skip m).raisesBefore n := by
  constructor
  · rintro ⟨k, hk, hraises⟩
    by_cases hm : k < m
    · exact .inl ⟨k, hm, hraises⟩
    · refine .inr ⟨k - m, by omega, ?_⟩
      rwa [skip_raisesAt, Nat.add_sub_cancel' (Nat.le_of_not_lt hm)]
  · rintro (⟨k, hk, hraises⟩ | ⟨k, hk, hraises⟩)
    · exact ⟨k, by omega, hraises⟩
    · exact ⟨m + k, by omega, (skip_raisesAt db m k).mp hraises⟩

theorem raisesBefore_one : db.raisesBefore 1 ↔ db.raisesAt 0 := by
  constructor
  · rintro ⟨k, hk, hraises⟩
    rwa [Nat.lt_one_iff.mp hk] at hraises
  · intro hraises
    exact ⟨0, Nat.one_pos, hraises⟩

/-- From `db` the block comes to the outcome, and leaves the table `user`. -/
def Ends (reg_user : RegUserProcedure) (block : MysqlTry Unit α) (db : Mysql)
    (outcome : Except SQLException α) (user : List UserRow) : Prop :=
  ∃ final, runTry reg_user block db = (outcome, final) ∧ final.user = user

theorem Ends.owning {object : SqlObject} {block : MysqlTry Unit α} {outcome : Except SQLException α}
    {user : List UserRow} (hblock : Ends reg_user block db outcome user) :
    Ends reg_user (owning object block) db outcome user := by
  obtain ⟨final, hrun, huser⟩ := hblock
  exact ⟨final, (runTry_owning reg_user db object block).trans hrun, huser⟩

section Bind

variable {block : MysqlTry Unit α} {second : α → MysqlTry Unit β} {value : α}
  {outcome : Except SQLException β} {user : List UserRow}
  (hblock : runTry reg_user block db
    = if db.raisesAt 0 then (.error .raised, db.skip 1) else (.ok value, db'))

include hblock

theorem Ends.bind (hquiet : ¬ db.raisesAt 0) (hsecond : Ends reg_user (second value) db' outcome user) :
    Ends reg_user (block >>= second) db outcome user := by
  obtain ⟨final, hrun, huser⟩ := hsecond
  refine ⟨final, ?_, huser⟩
  rw [runTry_bind_attempt reg_user db hblock, if_neg hquiet, hrun]

theorem Ends.raised (hraises : db.raisesAt 0) :
    Ends reg_user (block >>= second) db (.error .raised) db.user := by
  refine ⟨db.skip 1, ?_, rfl⟩
  rw [runTry_bind_attempt reg_user db hblock, if_pos hraises]

/-- One of several operations raises: the first of them, or one of those behind it. -/
theorem Ends.raising {n : Nat} (hraises : db.raisesBefore (n + 1)) (hskip : db' = db.skip 1)
    (hsecond : db'.raisesBefore n → Ends reg_user (second value) db' (.error .raised) db'.user) :
    Ends reg_user (block >>= second) db (.error .raised) db.user := by
  subst hskip
  by_cases hfirst : db.raisesAt 0
  · exact Ends.raised hblock hfirst
  · rw [Nat.add_comm] at hraises
    rcases raisesBefore_add.mp hraises with hone | hrest
    · exact absurd (raisesBefore_one.mp hone) hfirst
    · exact Ends.bind hblock hfirst (hsecond hrest)

theorem Ends.quiet {n : Nat} (hquiet : ¬ db.raisesBefore (n + 1)) (hskip : db' = db.skip 1)
    (hsecond : ¬ db'.raisesBefore n → Ends reg_user (second value) db' outcome user) :
    Ends reg_user (block >>= second) db outcome user := by
  subst hskip
  rw [Nat.add_comm, raisesBefore_add, not_or, raisesBefore_one] at hquiet
  exact Ends.bind hblock hquiet.1 (hsecond hquiet.2)

end Bind

/-- A block that raises gives the value of the handler, and the table that it leaves. -/
theorem Ends.tryCatch {block : MysqlTry Unit α} {handler : MysqlProgram Unit α}
    {outcome : Except SQLException α} {user : List UserRow} {caught : α}
    (hblock : Ends reg_user block db outcome user)
    (hhandler : ∀ db, run reg_user handler db = (caught, db)) :
    (run reg_user (MysqlDao.tryCatch block handler) db).1 = (outcome.toOption.getD caught) ∧
      (run reg_user (MysqlDao.tryCatch block handler) db).2.user = user := by
  obtain ⟨final, hrun, huser⟩ := hblock
  rw [run_tryCatch, hrun]
  cases outcome with
  | ok value => exact ⟨rfl, huser⟩
  | error e =>
      dsimp only
      rw [hhandler]
      exact ⟨rfl, huser⟩

/-! ### The points of failure -/

def called (reg_user : RegUserProcedure) (db : Mysql) (name email pwd : Bytes) : Mysql :=
  { db.skip 5 with
    user := (reg_user db.user name email pwd).2
    result := (reg_user db.user name email pwd).1 }

theorem attempt_call (con : Option Unit) {params : Nat → Bytes} (hname : params 1 = name)
    (hemail : params 2 = email) (hpwd : params 3 = pwd) :
    runTry reg_user (MysqlDao.execute ⟨con, "CALL reg_user(?,?,?,@result)", params⟩) (db.skip 4)
      = if (db.skip 4).raisesAt 0 then (.error .raised, (db.skip 4).skip 1)
        else (.ok (), db.called reg_user name email pwd) := by
  rw [attempt_execute, Mysql.execute, if_pos rfl, skip_skip]
  simp only [hname, hemail, hpwd]
  rfl

structure Registers (reg_user : RegUserProcedure) (db : Mysql) (name email pwd : Bytes) (uid : Int)
    (user : List UserRow) : Prop where
  returned : (run reg_user (RegUser name email pwd) db).1 = uid
  table : (run reg_user (RegUser name email pwd) db).2.user = user

/-- Up to the call of the procedure, an exception finds the table as it was. -/
theorem registers_of_early (hraises : db.raisesBefore 5) :
    Registers reg_user db name email pwd (-1) db.user := by
  have hends : (run reg_user (RegUser name email pwd) db).1 = -1 ∧
      (run reg_user (RegUser name email pwd) db).2.user = db.user := by
    rw [RegUser, run_bind, run_getConnection]
    simp only [Option.isNone_some, Bool.false_eq_true, if_false]
    refine Ends.tryCatch (?_ : Ends reg_user _ db (.error .raised) db.user) fun _ => rfl
    apply Ends.raising (attempt_prepareStatement _ _ _ _) hraises rfl
    intro hraises
    apply Ends.owning
    apply Ends.raising (attempt_setString _ _ _ _ _) hraises rfl
    intro hraises
    apply Ends.raising (attempt_setString _ _ _ _ _) hraises rfl
    intro hraises
    apply Ends.raising (attempt_setString _ _ _ _ _) hraises rfl
    intro hraises
    rw [skip_skip, skip_skip, skip_skip] at hraises ⊢
    apply Ends.raised (attempt_call _ rfl rfl rfl)
    exact raisesBefore_one.mp hraises
  exact ⟨hends.1, hends.2⟩

def readResult (con : Option Unit) : MysqlTry Unit Int := do
  createStatement con
  owning .Statement do
    let res ← MysqlDao.executeQuery con "SELECT @result AS result" fun _ => []
    owning .ResultSet do
      let (more, res) ← MysqlDao.next res
      if more then
        let result ← getInt res "result"
        returnConnection con
        return result
      returnConnection con
      return -1

/-- What stands behind the call is run on what the call has left. -/
theorem registers_of_called (hquiet : ¬ db.raisesBefore 5) {outcome : Except SQLException Int}
    {user : List UserRow}
    (hrest : Ends reg_user (readResult (some ())) (db.called reg_user name email pwd) outcome user) :
    Registers reg_user db name email pwd (outcome.toOption.getD (-1)) user := by
  have hends : (run reg_user (RegUser name email pwd) db).1 = outcome.toOption.getD (-1) ∧
      (run reg_user (RegUser name email pwd) db).2.user = user := by
    rw [RegUser, run_bind, run_getConnection]
    simp only [Option.isNone_some, Bool.false_eq_true, if_false]
    refine Ends.tryCatch (?_ : Ends reg_user _ db outcome user) fun _ => rfl
    apply Ends.quiet (attempt_prepareStatement _ _ _ _) hquiet rfl
    intro hquiet
    apply Ends.owning
    apply Ends.quiet (attempt_setString _ _ _ _ _) hquiet rfl
    intro hquiet
    apply Ends.quiet (attempt_setString _ _ _ _ _) hquiet rfl
    intro hquiet
    apply Ends.quiet (attempt_setString _ _ _ _ _) hquiet rfl
    intro hquiet
    rw [skip_skip, skip_skip, skip_skip] at hquiet ⊢
    exact Ends.bind (attempt_call _ rfl rfl rfl) (mt raisesBefore_one.mpr hquiet) hrest
  exact ⟨hends.1, hends.2⟩

theorem attempt_readResult (db : Mysql) :
    runTry reg_user (MysqlDao.executeQuery (some ()) "SELECT @result AS result" fun _ => []) db
      = if db.raisesAt 0 then (.error .raised, db.skip 1)
        else (.ok ⟨none, [[("result", .int db.result)]]⟩, db.skip 1) := by
  rw [attempt_executeQuery]
  rfl

theorem ends_readResult_raising (hraises : db.raisesBefore 4) :
    Ends reg_user (readResult (some ())) db (.error .raised) db.user := by
  apply Ends.raising (attempt_createStatement _ _ _) hraises rfl
  intro hraises
  apply Ends.owning
  apply Ends.raising (attempt_readResult _) hraises rfl
  intro hraises
  apply Ends.owning
  apply Ends.raising (attempt_next _ _ _) hraises rfl
  intro hraises
  apply Ends.raised (attempt_getInt _ _ rfl)
  exact raisesBefore_one.mp hraises

theorem ends_readResult_quiet (hquiet : ¬ db.raisesBefore 4) :
    Ends reg_user (readResult (some ())) db (.ok db.result) db.user := by
  apply Ends.quiet (attempt_createStatement _ _ _) hquiet rfl
  intro hquiet
  apply Ends.owning
  apply Ends.quiet (attempt_readResult _) hquiet rfl
  intro hquiet
  apply Ends.owning
  apply Ends.quiet (attempt_next _ _ _) hquiet rfl
  intro hquiet
  apply Ends.bind (attempt_getInt _ _ rfl) (mt raisesBefore_one.mpr hquiet)
  exact ⟨_, rfl, rfl⟩

/-! ### Towards the caller -/

/-- The procedure refuses, with 0 or -1 and the table as it was, or adds the row with a positive uid. -/
def AddsOrRefuses (reg_user : RegUserProcedure) : Prop :=
  ∀ user name email pwd,
    ((reg_user user name email pwd).1 = 0 ∨ (reg_user user name email pwd).1 = -1) ∧
        (reg_user user name email pwd).2 = user ∨
      0 < (reg_user user name email pwd).1 ∧
        (reg_user user name email pwd).2.Perm
          (⟨(reg_user user name email pwd).1, name, email, pwd⟩ :: user)

/-- With 0 and -1 nothing has been registered, and with a positive uid exactly the row of that uid. -/
structure RegistersAtomically (reg_user : RegUserProcedure) (db : Mysql) (name email pwd : Bytes) :
    Prop where
  refused : (run reg_user (RegUser name email pwd) db).1 = 0 ∨
      (run reg_user (RegUser name email pwd) db).1 = -1 →
    (run reg_user (RegUser name email pwd) db).2.user = db.user
  added : 0 < (run reg_user (RegUser name email pwd) db).1 →
    (run reg_user (RegUser name email pwd) db).2.user.Perm
      (⟨(run reg_user (RegUser name email pwd) db).1, name, email, pwd⟩ :: db.user)

/-- The result and the table settle whether the call was atomic. -/
theorem Registers.atomically_iff {uid : Int} {user : List UserRow}
    (hregisters : Registers reg_user db name email pwd uid user) :
    RegistersAtomically reg_user db name email pwd ↔
      (uid = 0 ∨ uid = -1 → user = db.user) ∧ (0 < uid → user.Perm (⟨uid, name, email, pwd⟩ :: db.user)) := by
  constructor
  · rintro ⟨hrefused, hadded⟩
    rw [hregisters.returned, hregisters.table] at hrefused hadded
    exact ⟨hrefused, hadded⟩
  · rintro ⟨hrefused, hadded⟩
    constructor
    · rwa [hregisters.returned, hregisters.table]
    · rwa [hregisters.returned, hregisters.table]

/-- **When `RegUser` is atomic.** It is exactly if the procedure refuses, or the call of the procedure
is not reached, or none of the operations raises: a failure behind a successful call is the only one
that leaves a row that the caller is told nothing of. -/
theorem registersAtomically_iff (hreg : AddsOrRefuses reg_user) :
    RegistersAtomically reg_user db name email pwd ↔
      (0 < (reg_user db.user name email pwd).1 → ¬ db.raisesBefore 5 → ¬ db.raisesBefore 9) := by
  have hprocedure := hreg db.user name email pwd
  by_cases hearly : db.raisesBefore 5
  · rw [(registers_of_early hearly).atomically_iff]
    constructor
    · intro _ _ hquiet
      exact absurd hearly hquiet
    · intro _
      exact ⟨fun _ => rfl, fun huid => absurd huid (by decide)⟩
  · have hlate : db.raisesBefore 9 ↔ (db.called reg_user name email pwd).raisesBefore 4 := by
      rw [show (9 : Nat) = 5 + 4 from rfl, raisesBefore_add, or_iff_right hearly]
      rfl
    by_cases hraises : (db.called reg_user name email pwd).raisesBefore 4
    · rw [(registers_of_called hearly (ends_readResult_raising hraises)).atomically_iff, hlate]
      constructor
      · rintro ⟨hrefused, -⟩ hpositive
        rcases hprocedure with ⟨hzero, -⟩ | ⟨-, hadded⟩
        · omega
        · -- the table is longer than the caller is told
          have hlength := hadded.length_eq
          rw [show (reg_user db.user name email pwd).2 = db.user from hrefused (.inr rfl)] at hlength
          simp at hlength
      · intro hcondition
        rcases hprocedure with ⟨-, htable⟩ | ⟨hpositive, -⟩
        · exact ⟨fun _ => htable, fun huid => absurd huid (by decide)⟩
        · exact absurd hraises (hcondition hpositive hearly)
    · have hregisters : Registers reg_user db name email pwd (reg_user db.user name email pwd).1
          (reg_user db.user name email pwd).2 :=
        registers_of_called hearly (ends_readResult_quiet hraises)
      rw [hregisters.atomically_iff, hlate]
      constructor
      · intro _ _ _
        exact hraises
      · intro _
        rcases hprocedure with ⟨hzero, htable⟩ | ⟨hpositive, hadded⟩
        · exact ⟨fun _ => htable, fun huid => by omega⟩
        · exact ⟨fun hzero => by omega, fun _ => hadded⟩

theorem addsOrRefuses_of_registersNew (hreg : RegistersNew reg_user) : AddsOrRefuses reg_user := by
  intro user name email pwd
  by_cases hfresh : ∀ row ∈ user, row.name ≠ name ∧ row.email ≠ email
  · obtain ⟨hpositive, -, hadded⟩ := hreg.fresh user name email pwd hfresh
    exact .inr ⟨hpositive, hadded⟩
  · rw [hreg.taken user name email pwd hfresh]
    exact .inl ⟨.inl rfl, rfl⟩

/-- The first failure of a run in which `setString` raises. -/
theorem registersAtomically_early :
    RegistersAtomically Accounts.registerNew ⟨[], 0, [false, true]⟩ (ascii "ann") (ascii "a@b.c")
      (ascii "pw") :=
  (registersAtomically_iff
    (addsOrRefuses_of_registersNew Accounts.registersNew_registerNew)).mpr fun _ hquiet =>
      absurd (show Mysql.raisesBefore ⟨[], 0, [false, true]⟩ 5 by decide) hquiet

/-- The query of the result raises: the account is there, and the caller is told that it exists. -/
theorem not_registersAtomically :
    ¬ ∀ (reg_user : RegUserProcedure) (db : Mysql) (name email pwd : Bytes), AddsOrRefuses reg_user →
      RegistersAtomically reg_user db name email pwd := by
  intro hall
  have hatomic := hall Accounts.registerNew
    ⟨[], 0, [false, false, false, false, false, false, true]⟩ (ascii "ann") (ascii "a@b.c")
    (ascii "pw") (addsOrRefuses_of_registersNew Accounts.registersNew_registerNew)
  exact absurd (hatomic.refused (.inr (by decide +kernel))) (by decide +kernel)

end Mysql

end QuickChat
