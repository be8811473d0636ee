import QuickChat.Common.Accounts
import QuickChat.Proof.Mysql

/-!
# Who can log in

The table is determined by the calls that were made: its rows are the registrations that succeeded,
each with the password set last. So `CheckPwd` accepts what the history says and nothing else. A name
without a row has the empty string as its password for a moment, and is still refused.
-/

namespace QuickChat

/-- What the stored procedure is to do: it adds a row with a fresh positive uid for a name and an email
that are both new, and otherwise returns 0 and leaves the table alone. -/
structure RegistersNew (reg_user : RegUserProcedure) : Prop where
  fresh : ∀ user name email pwd, (∀ row ∈ user, row.name ≠ name ∧ row.email ≠ email) →
    0 < (reg_user user name email pwd).1 ∧
    (∀ row ∈ user, row.uid ≠ (reg_user user name email pwd).1) ∧
    (reg_user user name email pwd).2.Perm
      (⟨(reg_user user name email pwd).1, name, email, pwd⟩ :: user)
  taken : ∀ user name email pwd, ¬ (∀ row ∈ user, row.name ≠ name ∧ row.email ≠ email) →
    reg_user user name email pwd = (0, user)

namespace Accounts

/-! ### What a history says -/

/-- The password of a name that was registered with `first`, after the calls of `history`. -/
def latestPwd (name first : Bytes) (history : List AccountEntry) : Bytes :=
  history.foldl (fun pwd entry => match entry with
    | .UpdatePwd other newpwd _ => if other = name then newpwd else pwd
    | _ => pwd) first

def Registered (history : List AccountEntry) (row : UserRow) : Prop :=
  ∃ before first after, history = before ++ .RegUser row.name row.email first row.uid :: after ∧
    0 < row.uid ∧ row.pwd = latestPwd row.name first after

def updateRow : AccountEntry → UserRow → UserRow
  | .UpdatePwd name newpwd _, row => if row.name = name then { row with pwd := newpwd } else row
  | _, row => row

theorem not_registered_nil (row : UserRow) : ¬ Registered [] row := by
  rintro ⟨before, first, after, hhistory, -⟩
  exact absurd hhistory.symm (by simp)

theorem updateRow_eq (entry : AccountEntry) (row : UserRow) :
    updateRow entry row = ⟨row.uid, row.name, row.email, latestPwd row.name row.pwd [entry]⟩ := by
  cases entry with
  | UpdatePwd name newpwd updated =>
      by_cases hname : row.name = name
      · simp [updateRow, latestPwd, hname]
      · simp [updateRow, latestPwd, hname, Ne.symm hname]
  | RegUser name email pwd uid => rfl
  | CheckEmail name email valid => rfl
  | CheckPwd name pwd userInfo => rfl

theorem latestPwd_concat (name first : Bytes) (history : List AccountEntry) (entry : AccountEntry) :
    latestPwd name first (history ++ [entry])
      = latestPwd name (latestPwd name first history) [entry] := by
  rw [latestPwd, List.foldl_append]
  rfl

/-- **One more call.** A row is registered afterwards if it was before, up to what the call does to it,
or if the call has just added it. -/
theorem registered_concat {history : List AccountEntry} {entry : AccountEntry} {row : UserRow} :
    Registered (history ++ [entry]) row ↔
      (∃ old, Registered history old ∧ updateRow entry old = row) ∨
        (entry = .RegUser row.name row.email row.pwd row.uid ∧ 0 < row.uid) := by
  constructor
  · rintro ⟨before, first, after, hhistory, huid, hpwd⟩
    rcases List.eq_nil_or_concat after with rfl | ⟨after, last, rfl⟩
    · obtain ⟨-, hentry⟩ := List.append_inj' hhistory rfl
      refine Or.inr ⟨?_, huid⟩
      rw [List.singleton_inj.mp hentry, hpwd]
      rfl
    · rw [List.concat_eq_append] at hhistory hpwd
      rw [← List.cons_append, ← List.append_assoc] at hhistory
      obtain ⟨hbefore, hlast⟩ := List.append_inj' hhistory rfl
      obtain rfl := List.singleton_inj.mp hlast
      refine Or.inl ⟨{ row with pwd := latestPwd row.name first after },
        ⟨before, first, after, hbefore, huid, rfl⟩, ?_⟩
      rw [updateRow_eq, ← latestPwd_concat, ← hpwd]
  · rintro (⟨old, ⟨before, first, after, hhistory, huid, hpwd⟩, rfl⟩ | ⟨rfl, huid⟩)
    · rw [updateRow_eq]
      refine ⟨before, first, after ++ [entry], ?_, huid, ?_⟩
      · rw [hhistory, List.append_assoc, List.cons_append]
      · rw [latestPwd_concat, ← hpwd]
    · exact ⟨history, row.pwd, [], rfl, huid, rfl⟩

/-! ### The table and the history -/

/-- The rows of the table are those that the history says, one for each name. -/
structure Recorded (accounts : Accounts) : Prop where
  faults : accounts.db.faults = []
  names : (accounts.db.user.map UserRow.name).Nodup
  rows : ∀ row, row ∈ accounts.db.user ↔ Registered accounts.history row

theorem recorded_start (result : Int) : Recorded (start result) :=
  ⟨rfl, List.nodup_nil, fun row => iff_of_false List.not_mem_nil (not_registered_nil row)⟩

section Step

variable {reg_user : RegUserProcedure} {accounts : Accounts} (haccounts : Recorded accounts)

include haccounts

/-- A call that adds no row and updates none leaves the history true as it is. -/
theorem Recorded.unchanged {entry : AccountEntry} {db : Mysql} (hfaults : db.faults = [])
    (huser : db.user = accounts.db.user) (hupdate : ∀ row, updateRow entry row = row)
    (hnew : ∀ row : UserRow, 0 < row.uid → entry ≠ .RegUser row.name row.email row.pwd row.uid) :
    Recorded ⟨db, accounts.history ++ [entry]⟩ := by
  refine ⟨hfaults, huser ▸ haccounts.names, fun row => ?_⟩
  rw [huser, haccounts.rows, registered_concat]
  simp only [hupdate]
  constructor
  · intro hrow
    exact Or.inl ⟨row, hrow, rfl⟩
  · rintro (⟨old, hold, rfl⟩ | ⟨hentry, huid⟩)
    · exact hold
    · exact absurd hentry (hnew row huid)

/-- A registration adds its row and its entry together, or neither. -/
theorem Recorded.regUser (hreg : RegistersNew reg_user) (name email pwd : Bytes) :
    Recorded ⟨(Mysql.run reg_user (MysqlDao.RegUser name email pwd) accounts.db).2,
      accounts.history ++ [.RegUser name email pwd
        (Mysql.run reg_user (MysqlDao.RegUser name email pwd) accounts.db).1]⟩ := by
  rw [Mysql.run_RegUser reg_user haccounts.faults]
  by_cases hfresh : ∀ row ∈ accounts.db.user, row.name ≠ name ∧ row.email ≠ email
  · obtain ⟨huid, -, hperm⟩ := hreg.fresh accounts.db.user name email pwd hfresh
    refine ⟨haccounts.faults, ?_, fun row => ?_⟩
    · rw [(hperm.map UserRow.name).nodup_iff, List.map_cons, List.nodup_cons]
      refine ⟨fun hmem => ?_, haccounts.names⟩
      obtain ⟨row, hrow, hname⟩ := List.mem_map.mp hmem
      exact (hfresh row hrow).1 hname
    · rw [hperm.mem_iff, List.mem_cons, haccounts.rows, registered_concat]
      constructor
      · rintro (rfl | hrow)
        · exact Or.inr ⟨rfl, huid⟩
        · exact Or.inl ⟨row, hrow, rfl⟩
      · rintro (⟨old, hold, rfl⟩ | ⟨hentry, -⟩)
        · exact Or.inr hold
        · rw [AccountEntry.RegUser.injEq] at hentry
          obtain ⟨rfl, rfl, rfl, hrow⟩ := hentry
          exact Or.inl (by rw [hrow])
  · rw [hreg.taken accounts.db.user name email pwd hfresh]
    refine haccounts.unchanged ?_ rfl ?_ ?_
    · exact haccounts.faults
    · intro row
      rfl
    · intro row huid hentry
      rw [AccountEntry.RegUser.injEq] at hentry
      exact absurd (hentry.2.2.2 ▸ huid) (lt_irrefl 0)

/-- What an update does to the table it does to the password that the history says. -/
theorem Recorded.updatePwd (name newpwd : Bytes) :
    Recorded ⟨(Mysql.run reg_user (MysqlDao.UpdatePwd name newpwd) accounts.db).2,
      accounts.history ++ [.UpdatePwd name newpwd
        (Mysql.run reg_user (MysqlDao.UpdatePwd name newpwd) accounts.db).1]⟩ := by
  rw [Mysql.run_UpdatePwd reg_user haccounts.faults]
  refine ⟨haccounts.faults, ?_, fun row => ?_⟩
  · rw [List.map_map, List.map_congr_left fun row _ => show _ = row.name by
      simp only [Function.comp_apply]
      split <;> rfl]
    exact haccounts.names
  · rw [List.mem_map, registered_concat]
    constructor
    · rintro ⟨old, hold, rfl⟩
      exact Or.inl ⟨old, (haccounts.rows old).mp hold, rfl⟩
    · rintro (⟨old, hold, rfl⟩ | ⟨hentry, -⟩)
      · exact ⟨old, (haccounts.rows old).mpr hold, rfl⟩
      · exact absurd hentry (by simp)

theorem Recorded.checkEmail (name email : Bytes) :
    Recorded ⟨(Mysql.run reg_user (MysqlDao.CheckEmail name email) accounts.db).2,
      accounts.history ++ [.CheckEmail name email
        (Mysql.run reg_user (MysqlDao.CheckEmail name email) accounts.db).1]⟩ := by
  rw [Mysql.run_CheckEmail reg_user haccounts.faults]
  exact haccounts.unchanged haccounts.faults rfl (fun _ => rfl) (by simp)

theorem Recorded.checkPwd (name pwd : Bytes) :
    Recorded ⟨(Mysql.run reg_user (MysqlDao.CheckPwd name pwd) accounts.db).2,
      accounts.history ++ [.CheckPwd name pwd
        (Mysql.run reg_user (MysqlDao.CheckPwd name pwd) accounts.db).1]⟩ := by
  rw [Mysql.run_CheckPwd reg_user haccounts.faults]
  exact haccounts.unchanged haccounts.faults rfl (fun _ => rfl) (by simp)

end Step

theorem recorded_step {reg_user : RegUserProcedure} (hreg : RegistersNew reg_user)
    {accounts next : Accounts} {op : MysqlOp} (haccounts : Recorded accounts)
    (hstep : step reg_user accounts op = some next) : Recorded next := by
  cases op with
  | RegUser name email pwd => exact Option.some.inj hstep ▸ haccounts.regUser hreg name email pwd
  | CheckEmail name email => exact Option.some.inj hstep ▸ haccounts.checkEmail name email
  | UpdatePwd name newpwd => exact Option.some.inj hstep ▸ haccounts.updatePwd name newpwd
  | CheckPwd name pwd => exact Option.some.inj hstep ▸ haccounts.checkPwd name pwd

/-! ### Logging in -/

theorem find?_eq_some_iff_of_nodup {user : List UserRow} (hnodup : (user.map UserRow.name).Nodup)
    {name : Bytes} {row : UserRow} :
    user.find? (·.name = name) = some row ↔ row ∈ user ∧ row.name = name := by
  constructor
  · intro hfind
    exact ⟨List.mem_of_find?_eq_some hfind, by simpa using List.find?_some hfind⟩
  · rintro ⟨hmem, hname⟩
    cases hfind : user.find? (·.name = name) with
    | none =>
        have hnot := List.find?_eq_none.mp hfind row hmem
        exact absurd hname (by simpa using hnot)
    | some other =>
        have hother : other.name = name := by simpa using List.find?_some hfind
        have hsame := List.inj_on_of_nodup_map hnodup (List.mem_of_find?_eq_some hfind) hmem
          (hother.trans hname.symm)
        rw [hsame]

/-- **Who can log in.** After any calls on an empty table, `CheckPwd` accepts a name and a password if
and only if the name was registered with a positive uid and the password is the one set last, and then
it gives the uid and the email of that registration. -/
theorem checkPwd_iff {reg_user : RegUserProcedure} (hreg : RegistersNew reg_user) {result : Int}
    {calls : List MysqlOp} {accounts : Accounts}
    (hrun : Machine.run (step reg_user) (start result) calls = some accounts) (name pwd : Bytes)
    (userInfo : UserInfo) :
    (Mysql.run reg_user (MysqlDao.CheckPwd name pwd) accounts.db).1 = some userInfo ↔
      ∃ before email first uid after,
        accounts.history = before ++ .RegUser name email first uid :: after ∧ 0 < uid ∧
          pwd = latestPwd name first after ∧ userInfo = ⟨name, pwd, uid, email⟩ := by
  have hrecorded : Recorded accounts := Machine.run_invariant (recorded_start result)
    (fun _ _ _ hstate hstep => recorded_step hreg hstate hstep) hrun
  rw [Mysql.run_CheckPwd reg_user hrecorded.faults]
  constructor
  · intro hcheck
    cases hfind : accounts.db.user.find? (·.name = name) with
    | none => simp [hfind] at hcheck
    | some row =>
        obtain ⟨hrow, rfl⟩ := (find?_eq_some_iff_of_nodup hrecorded.names).mp hfind
        obtain ⟨before, first, after, hhistory, huid, hlatest⟩ := (hrecorded.rows row).mp hrow
        simp only [hfind, Option.ite_none_right_eq_some, Option.some.injEq] at hcheck
        obtain ⟨hpwd, rfl⟩ := hcheck
        exact ⟨before, row.email, first, row.uid, after, hhistory, huid, hpwd.trans hlatest,
          by rw [hpwd]⟩
  · rintro ⟨before, email, first, uid, after, hhistory, huid, hpwd, rfl⟩
    have hrow : ⟨uid, name, email, pwd⟩ ∈ accounts.db.user :=
      (hrecorded.rows _).mpr ⟨before, first, after, hhistory, huid, hpwd⟩
    have hfind := (find?_eq_some_iff_of_nodup hrecorded.names).mpr ⟨hrow, rfl⟩
    simp [hfind]

/-- A procedure that does so: the uid is above those of the table. -/
def nextUid (user : List UserRow) : Int := user.foldr (fun row uid => max (row.uid + 1) uid) 1

def registerNew : RegUserProcedure := fun user name email pwd =>
  if ∀ row ∈ user, row.name ≠ name ∧ row.email ≠ email then
    (nextUid user, ⟨nextUid user, name, email, pwd⟩ :: user)
  else (0, user)

theorem nextUid_pos (user : List UserRow) : 0 < nextUid user := by
  induction user with
  | nil => decide
  | cons row rest ih => exact lt_max_of_lt_right ih

theorem lt_nextUid {user : List UserRow} {row : UserRow} (hrow : row ∈ user) :
    row.uid < nextUid user := by
  induction user with
  | nil => exact absurd hrow List.not_mem_nil
  | cons first rest ih =>
      rcases List.mem_cons.mp hrow with rfl | hrest
      · exact lt_max_of_lt_left (lt_add_one row.uid)
      · exact lt_max_of_lt_right (ih hrest)

theorem registersNew_registerNew : RegistersNew registerNew where
  fresh user name email pwd hfresh := by
    rw [registerNew, if_pos hfresh]
    exact ⟨nextUid_pos user, fun row hrow => (lt_nextUid hrow).ne, List.Perm.refl _⟩
  taken user name email pwd htaken := by
    rw [registerNew, if_neg htaken]

/-- An update of a name that is not there, and one of a name that is. -/
theorem checkPwd_updated :
    ∃ accounts, Machine.run (step registerNew) (start 0)
        [.UpdatePwd [98] [49], .RegUser [97] [101] [], .UpdatePwd [97] [50], .RegUser [97] [102] [51]]
          = some accounts ∧
      (Mysql.run registerNew (MysqlDao.CheckPwd [97] [50]) accounts.db).1
        = some ⟨[97], [50], 1, [101]⟩ := by
  obtain ⟨accounts, hrun, hhistory⟩ := Option.map_eq_some_iff.mp (show
    (Machine.run (step registerNew) (start 0)
      [.UpdatePwd [98] [49], .RegUser [97] [101] [], .UpdatePwd [97] [50],
        .RegUser [97] [102] [51]]).map Accounts.history
      = some ([.UpdatePwd [98] [49] true] ++ .RegUser [97] [101] [] 1 ::
          [.UpdatePwd [97] [50] true, .RegUser [97] [102] [51] 0]) from by decide)
  refine ⟨accounts, hrun, (checkPwd_iff registersNew_registerNew hrun _ _ _).mpr ?_⟩
  exact ⟨_, [101], [], 1, _, hhistory, by decide, by decide, rfl⟩

end Accounts

end QuickChat
