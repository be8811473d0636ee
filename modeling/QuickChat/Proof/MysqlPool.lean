import QuickChat.Common.MysqlCalls

/-!
# What becomes of a connection of MySqlPool

Each operation of the connector has a rule: whether it raises or not, the call is in some stage of its
dealings with the connection, and a block that is left by an exception has destroyed its objects and
still has the connection. The four functions are followed by these rules, and the pool by what its
calls have taken and put back.
-/

namespace QuickChat

open MysqlDao Monitor

namespace MysqlUsage

variable {κ α β : Type} {P : MysqlUsage κ → Prop} {usage : MysqlUsage κ}

/-! ### Watching a try block -/

abbrev Watch (P : MysqlUsage κ → Prop) (Q : MysqlUsage κ → α → Prop) (program : MysqlProgram κ α)
    (usage : MysqlUsage κ) : Prop :=
  program.wp observe (Possible fun con => con ≠ none) P Q usage

def WatchTry (P : MysqlUsage κ → Prop) (Q : MysqlUsage κ → Except SQLException α → Prop)
    (block : MysqlTry κ α) (usage : MysqlUsage κ) : Prop :=
  Watch P Q block.run usage

variable {Q : MysqlUsage κ → Except SQLException α → Prop}

theorem watchTry_pure (value : α) :
    WatchTry P Q (pure value) usage ↔ P usage ∧ Q usage (.ok value) := Iff.rfl

/-- An object is destroyed on either way out of its block. -/
theorem watchTry_owning (object : SqlObject) (block : MysqlTry κ α) :
    WatchTry P Q (owning object block) usage ↔
      WatchTry P (fun usage result => P usage ∧ P (usage.destroy object) ∧
        Q (usage.destroy object) result) block usage := by
  rw [WatchTry, owning, ExceptT.run_mk, Watch, Program.wp_bind]
  refine Program.wp_congr fun usage result => ?_
  constructor
  · rintro ⟨hP, hrest⟩
    exact ⟨hP, hrest () trivial⟩
  · rintro ⟨hP, hrest⟩
    exact ⟨hP, fun _ _ => hrest⟩

theorem watch_tryCatch {Q : MysqlUsage κ → α → Prop} (block : MysqlTry κ α)
    (handler : MysqlProgram κ α) :
    Watch P Q (MysqlDao.tryCatch block handler) usage ↔
      WatchTry P (fun usage result =>
        match result with
        | .ok value => P usage ∧ Q usage value
        | .error _ => Watch P Q handler usage) block usage := by
  rw [MysqlDao.tryCatch, Watch, Program.wp_bind]
  refine Program.wp_congr fun usage result => ?_
  cases result with
  | error e => exact Iff.rfl
  | ok value => exact Iff.rfl

/-! ### The stages of a call -/

/-- Where a call is: it has no connection yet, it has one, or it has put it back. A connection is put
back early exactly if the function is not `CheckPwd` and no exception has been raised. -/
inductive Stage (op : MysqlOp) (usage : MysqlUsage κ) : Prop where
  | before (htaken : usage.taken = []) (hreturned : usage.returned = []) (halive : usage.alive = [])
      (hearly : usage.early = false)
  | holding (con : κ) (htaken : usage.taken = [some con]) (hreturned : usage.returned = [])
      (hearly : usage.early = false)
  | after (con : κ) (htaken : usage.taken = [some con]) (hreturned : usage.returned = [some con])
      (hearly : usage.early = true ↔ ¬ op.IsCheckPwd ∧ usage.raised = false)
      (halive : usage.early = false → usage.alive = [])

/-- `CheckEmail` has found no row for the name, and no exception has been raised. -/
def NoRowFound (op : MysqlOp) (usage : MysqlUsage κ) : Prop :=
  op.IsCheckEmail ∧ usage.noRows = true ∧ usage.raised = false

/-- A call that returns has destroyed its statements, and has put back its connection unless it has
found no row. -/
structure Finished (op : MysqlOp) (usage : MysqlUsage κ) : Prop where
  alive : usage.alive = []
  returned : ∃ con, usage.taken = [some con] ∧
    (NoRowFound op usage ∧ usage.returned = [] ∨
      ¬ NoRowFound op usage ∧ usage.returned = [some con])

variable {op : MysqlOp} {con : κ} {objects : List SqlObject} {res : ResultSet} {noRows : Bool}

/-- To destroy an object changes nothing about the connection. -/
theorem Stage.destroy (hstage : Stage op usage) (object : SqlObject) :
    Stage op (usage.destroy object) := by
  cases hstage with
  | before htaken hreturned halive hearly =>
      exact .before htaken hreturned (by rw [MysqlUsage.destroy, halive]; rfl) hearly
  | holding con htaken hreturned hearly => exact .holding con htaken hreturned hearly
  | after con htaken hreturned hearly halive =>
      refine .after con htaken hreturned hearly fun hlate => ?_
      rw [MysqlUsage.destroy, halive hlate]
      rfl

def holding (con : κ) (objects : List SqlObject) (res : ResultSet) (noRows : Bool) : MysqlUsage κ :=
  ⟨[some con], [], objects, res, noRows, false, false⟩

theorem stage_holding : Stage op (holding con objects res noRows) := .holding con rfl rfl rfl

theorem stage_raise : Stage op (holding con objects res noRows).raise := .holding con rfl rfl rfl

def Exit (con : κ) (objects : List SqlObject) (Q : MysqlUsage κ → α → Prop) (usage : MysqlUsage κ) :
    Except SQLException α → Prop
  | .ok value => Q usage value
  | .error _ => ∃ res noRows, usage = (holding con objects res noRows).raise

theorem exit_raise {Q : MysqlUsage κ → α → Prop} :
    Exit con objects Q (holding con objects res noRows).raise (.error .raised) :=
  ⟨res, noRows, rfl⟩

/-- So a block that raises has destroyed its own objects and those around it. -/
theorem exit_destroy {object : SqlObject} {Q : MysqlUsage κ → α → Prop}
    {result : Except SQLException α} (hstage : Stage op usage)
    (hexit : Exit con (object :: objects) (fun usage value => Q (usage.destroy object) value) usage
      result) :
    Stage op usage ∧ Stage op (usage.destroy object) ∧ Exit con objects Q (usage.destroy object)
      result := by
  refine ⟨hstage, hstage.destroy object, ?_⟩
  cases result with
  | ok value => exact hexit
  | error e =>
      obtain ⟨res, noRows, rfl⟩ := hexit
      exact ⟨res, noRows, by simp [holding, raise, MysqlUsage.destroy]⟩

/-! ### Rules for a try block -/

section Rules

variable {Q : MysqlUsage κ → β → Prop}

theorem owning_rule {object : SqlObject} {block : MysqlTry κ β}
    (hblock : WatchTry (Stage op)
      (Exit con (object :: objects) fun usage value => Q (usage.destroy object) value) block usage) :
    WatchTry (Stage op) (Exit con objects Q) (owning object block) usage :=
  (watchTry_owning _ _).mpr (Program.wp_mono (fun _ _ => exit_destroy) hblock)

theorem prepareStatement_rule {sql : String} {second : PreparedStatement κ → MysqlTry κ β}
    (hsecond : WatchTry (Stage op)
      (Exit con (.PreparedStatement :: objects) fun usage value =>
        Q (usage.destroy .PreparedStatement) value)
      (second ⟨some con, sql, fun _ => []⟩)
      (holding con (.PreparedStatement :: objects) res noRows)) :
    WatchTry (Stage op) (Exit con objects Q)
      (prepareStatement (some con) sql >>= fun stmt => owning .PreparedStatement (second stmt))
      (holding con objects res noRows) := by
  refine ⟨stage_holding, ?_⟩
  rintro (⟨⟨⟩⟩ | ⟨⟩) -
  · exact ⟨stage_raise, exit_raise⟩
  · exact owning_rule hsecond

theorem createStatement_rule {second : Unit → MysqlTry κ β}
    (hsecond : WatchTry (Stage op)
      (Exit con (.Statement :: objects) fun usage value => Q (usage.destroy .Statement) value)
      (second ()) (holding con (.Statement :: objects) res noRows)) :
    WatchTry (Stage op) (Exit con objects Q)
      (createStatement (some con) >>= fun stmt => owning .Statement (second stmt))
      (holding con objects res noRows) := by
  refine ⟨stage_holding, ?_⟩
  rintro (⟨⟨⟩⟩ | ⟨⟩) -
  · exact ⟨stage_raise, exit_raise⟩
  · exact owning_rule hsecond

theorem executeQuery_rule {sql : String} {params : Nat → Bytes} {second : ResultSet → MysqlTry κ β}
    (hsecond : ∀ rows, WatchTry (Stage op)
      (Exit con (.ResultSet :: objects) fun usage value => Q (usage.destroy .ResultSet) value)
      (second ⟨none, rows⟩) (holding con (.ResultSet :: objects) ⟨none, rows⟩ rows.isEmpty)) :
    WatchTry (Stage op) (Exit con objects Q)
      (executeQuery (some con) sql params >>= fun res => owning .ResultSet (second res))
      (holding con objects res noRows) := by
  refine ⟨stage_holding, ?_⟩
  rintro (⟨⟨⟩⟩ | rows) -
  · exact ⟨stage_raise, exit_raise⟩
  · exact owning_rule (hsecond rows)

theorem setString_rule {stmt : PreparedStatement κ} {index : Nat} {value : Bytes}
    {second : PreparedStatement κ → MysqlTry κ β}
    (hsecond : ∀ stmt', WatchTry (Stage op) (Exit con objects Q) (second stmt')
      (holding con objects res noRows)) :
    WatchTry (Stage op) (Exit con objects Q) (setString stmt index value >>= second)
      (holding con objects res noRows) := by
  refine ⟨stage_holding, ?_⟩
  rintro (⟨⟨⟩⟩ | ⟨⟩) -
  · exact ⟨stage_raise, exit_raise⟩
  · exact hsecond { stmt with params := Function.update stmt.params index value }

theorem execute_rule {stmt : PreparedStatement κ} {second : Unit → MysqlTry κ β}
    (hsecond : WatchTry (Stage op) (Exit con objects Q) (second ())
      (holding con objects res noRows)) :
    WatchTry (Stage op) (Exit con objects Q) (execute stmt >>= second)
      (holding con objects res noRows) := by
  refine ⟨stage_holding, ?_⟩
  rintro (⟨⟨⟩⟩ | ⟨⟩) -
  · exact ⟨stage_raise, exit_raise⟩
  · exact hsecond

theorem executeUpdate_rule {stmt : PreparedStatement κ} {second : Int → MysqlTry κ β}
    (hsecond : ∀ count, WatchTry (Stage op) (Exit con objects Q) (second count)
      (holding con objects res noRows)) :
    WatchTry (Stage op) (Exit con objects Q) (executeUpdate stmt >>= second)
      (holding con objects res noRows) := by
  refine ⟨stage_holding, ?_⟩
  rintro (⟨⟨⟩⟩ | count) -
  · exact ⟨stage_raise, exit_raise⟩
  · exact hsecond count

theorem next_rule {rows : List SqlRow} {second : Bool × ResultSet → MysqlTry κ β}
    (hnone : WatchTry (Stage op) (Exit con objects Q) (second (false, ⟨none, []⟩))
      (holding con objects ⟨none, []⟩ true))
    (hsome : ∀ row rest, WatchTry (Stage op) (Exit con objects Q) (second (true, ⟨some row, rest⟩))
      (holding con objects ⟨some row, rest⟩ false)) :
    WatchTry (Stage op) (Exit con objects Q) (next ⟨none, rows⟩ >>= second)
      (holding con objects ⟨none, rows⟩ rows.isEmpty) := by
  refine ⟨stage_holding, ?_⟩
  rintro (⟨⟨⟩⟩ | ⟨⟩) -
  · exact ⟨stage_raise, exit_raise⟩
  · cases rows with
    | nil => exact hnone
    | cons row rest => exact hsome row rest

theorem holding_read (con : κ) (objects : List SqlObject) (res : ResultSet) (noRows : Bool)
    (name : String) :
    (holding con objects res noRows).read name =
      match column res name with
      | .ok _ => holding con objects res noRows
      | .error _ => (holding con objects res noRows).raise := rfl

/-- Reading a column may raise although the server does not. -/
theorem column_rule {γ : Type} {name : String} {convert : SqlValue → MysqlTry κ γ}
    {second : γ → MysqlTry κ β} (hconvert : ∀ value, ∃ result, convert value = pure result)
    (hsecond : ∀ value, WatchTry (Stage op) (Exit con objects Q) (second value)
      (holding con objects res noRows)) :
    WatchTry (Stage op) (Exit con objects Q)
      (ExceptT.mk (pure (column res name)) >>= convert >>= second)
      ((holding con objects res noRows).read name) := by
  rw [holding_read]
  cases column res name with
  | error e => exact ⟨stage_raise, exit_raise⟩
  | ok value =>
      obtain ⟨result, hresult⟩ := hconvert value
      rw [show ExceptT.mk (pure (Except.ok value)) = (pure value : MysqlTry κ SqlValue) from rfl,
        pure_bind, hresult, pure_bind]
      exact hsecond result

theorem getString_rule {name : String} {second : Bytes → MysqlTry κ β}
    (hsecond : ∀ value, WatchTry (Stage op) (Exit con objects Q) (second value)
      (holding con objects res noRows)) :
    WatchTry (Stage op) (Exit con objects Q) (getString res name >>= second)
      (holding con objects res noRows) := by
  rw [getString, bind_assoc]
  refine ⟨stage_holding, ?_⟩
  rintro (⟨⟨⟩⟩ | ⟨⟩) -
  · exact ⟨stage_raise, exit_raise⟩
  · refine column_rule (fun value => ?_) hsecond
    cases value with
    | int n => exact ⟨_, rfl⟩
    | string s => exact ⟨_, rfl⟩

theorem getInt_rule {name : String} {second : Int → MysqlTry κ β}
    (hsecond : ∀ value, WatchTry (Stage op) (Exit con objects Q) (second value)
      (holding con objects res noRows)) :
    WatchTry (Stage op) (Exit con objects Q) (getInt res name >>= second)
      (holding con objects res noRows) := by
  rw [getInt, bind_assoc]
  refine ⟨stage_holding, ?_⟩
  rintro (⟨⟨⟩⟩ | ⟨⟩) -
  · exact ⟨stage_raise, exit_raise⟩
  · refine column_rule (fun value => ?_) hsecond
    cases value with
    | int n => exact ⟨_, rfl⟩
    | string s => exact ⟨_, rfl⟩

/-- A connection that is put back in a `try` block, with a statement alive. -/
theorem stage_putBack (hop : ¬ op.IsCheckPwd) (hobjects : objects ≠ []) :
    Stage op ((holding con objects res noRows).putBack (some con)) := by
  refine .after con rfl rfl ?_ ?_
  · simp [putBack, holding, hop, hobjects]
  · simp [putBack, holding, hobjects]

theorem watchTry_return {Q : MysqlUsage κ → Except SQLException β → Prop} {con : Option κ}
    {value : β} (hbefore : P usage) (hafter : P (usage.putBack con))
    (hvalue : Q (usage.putBack con) (.ok value)) :
    WatchTry P Q (do returnConnection con; return value) usage := by
  refine ⟨hbefore, fun _ _ => ?_⟩
  exact (watchTry_pure value).mpr ⟨hafter, hvalue⟩

theorem return_rule {value : β} (hop : ¬ op.IsCheckPwd) (hobjects : objects ≠ [])
    (hvalue : Q ((holding con objects res noRows).putBack (some con)) value) :
    WatchTry (Stage op) (Exit con objects Q) (do returnConnection (some con); return value)
      (holding con objects res noRows) :=
  watchTry_return stage_holding (stage_putBack hop hobjects) hvalue

theorem pure_rule {value : β} (hvalue : Q (holding con objects res noRows) value) :
    WatchTry (Stage op) (Exit con objects Q) (pure value) (holding con objects res noRows) :=
  (watchTry_pure value).mpr ⟨stage_holding, hvalue⟩

/-- The handler begins with the connection, and with no object left. -/
theorem tryCatch_rule {block : MysqlTry κ β} {handler : MysqlProgram κ β}
    (hblock : WatchTry (Stage op) (Exit con [] Q) block (holding con [] ⟨none, []⟩ false))
    (hhandler : ∀ res noRows, Watch (Stage op) Q handler (holding con [] res noRows).raise) :
    Watch (Stage op) Q (MysqlDao.tryCatch block handler) (holding con [] ⟨none, []⟩ false) := by
  refine (watch_tryCatch _ _).mpr (Program.wp_mono ?_ hblock)
  rintro usage (e | value) hstage hexit
  · obtain ⟨res, noRows, rfl⟩ := hexit
    exact hhandler res noRows
  · exact ⟨hstage, hexit⟩

end Rules

/-! ### The data access functions -/

theorem finished_of_returned (halive : usage.alive = []) (htaken : usage.taken = [some con])
    (hreturned : usage.returned = [some con]) (hrow : ¬ NoRowFound op usage) : Finished op usage :=
  ⟨halive, con, htaken, .inr ⟨hrow, hreturned⟩⟩

theorem watch_returnConnection {Q : MysqlUsage κ → Unit → Prop} (con : Option κ) :
    Watch P Q (returnConnection con) usage ↔
      P usage ∧ P (usage.putBack con) ∧ Q (usage.putBack con) () :=
  ⟨fun ⟨hP, hall⟩ => ⟨hP, hall ⟨⟩ trivial⟩, fun ⟨hP, hrest⟩ => ⟨hP, fun _ _ => hrest⟩⟩

theorem handler_rule {value : β} (res : ResultSet) (noRows : Bool) :
    Watch (Stage op) (fun usage _ => Finished op usage)
      (do returnConnection (some con); return value) (holding con [] res noRows).raise := by
  have hafter : Stage op ((holding con [] res noRows).raise.putBack (some con)) :=
    .after con rfl rfl (by simp [putBack, raise, holding]) fun _ => rfl
  rw [Watch, Program.wp_bind, ← Watch, watch_returnConnection]
  refine ⟨stage_raise, hafter, hafter, finished_of_returned rfl rfl rfl ?_⟩
  rintro ⟨-, -, hraised⟩
  exact absurd hraised (by simp [putBack, raise, holding])

/-- `CheckPwd` has left its `try` block: the objects are gone, and the connection is still there. -/
structure Deferred (con : κ) (usage : MysqlUsage κ) : Prop where
  taken : usage.taken = [some con]
  returned : usage.returned = []
  alive : usage.alive = []
  early : usage.early = false

/-- The destructor of the `Defer` runs in whatever way the block is left. -/
theorem defer_rule {value : β} (hop : op.IsCheckPwd) (hstage : Stage op usage)
    (hdeferred : Deferred con usage) :
    Watch (Stage op) (fun usage _ => Finished op usage)
      (do returnConnection (some con); return value) usage := by
  have hlate : (usage.putBack (some con)).early = false := by
    simp [putBack, hdeferred.alive, hdeferred.early]
  have hreturned : (usage.putBack (some con)).returned = [some con] := by
    simp [putBack, hdeferred.returned]
  have hafter : Stage op (usage.putBack (some con)) := by
    refine .after con hdeferred.taken hreturned ?_ fun _ => hdeferred.alive
    simp [hlate, hop]
  rw [Watch, Program.wp_bind, ← Watch, watch_returnConnection]
  refine ⟨hstage, hafter, hafter, ?_⟩
  refine finished_of_returned hdeferred.alive hdeferred.taken hreturned ?_
  rintro ⟨hemail, -⟩
  cases op with
  | CheckPwd name pwd => simp [MysqlOp.IsCheckEmail] at hemail
  | _ => simp [MysqlOp.IsCheckPwd] at hop

theorem watch_program {Q : MysqlUsage κ → Unit → Prop} {body : Option κ → MysqlProgram κ β}
    (hprogram : op.program = (getConnection >>= body) >>= fun _ => Program.ret ())
    (hbody : ∀ con, Watch (Stage op) (fun usage _ => Q usage ()) (body (some con))
      (holding con [] ⟨none, []⟩ false)) :
    Watch (Stage op) Q op.program init := by
  rw [hprogram, Watch, Program.wp_bind, Program.wp_bind]
  refine ⟨.before rfl rfl rfl rfl, fun con hcon => ?_⟩
  obtain ⟨con, rfl⟩ := Option.ne_none_iff_exists'.mp hcon
  refine ⟨stage_holding, Program.wp_mono (fun usage _ hstage hQ => ⟨hstage, hQ⟩) (hbody con)⟩

/-- The connection goes back before the objects of the block are gone, but on the way through the
handler. -/
theorem watch_RegUser (name email pwd : Bytes) :
    Watch (κ := κ) (Stage (.RegUser name email pwd))
      (fun usage _ => Finished (.RegUser name email pwd) usage)
      (MysqlOp.RegUser name email pwd).program init := by
  refine watch_program rfl fun con => tryCatch_rule ?_ handler_rule
  have hop : ¬ (MysqlOp.RegUser name email pwd).IsCheckPwd := by simp [MysqlOp.IsCheckPwd]
  have hrow (usage : MysqlUsage κ) : ¬ NoRowFound (.RegUser name email pwd) usage := by
    simp [NoRowFound, MysqlOp.IsCheckEmail]
  simp only [Option.isNone_some, Bool.false_eq_true, if_false]
  apply prepareStatement_rule
  apply setString_rule
  intro stmt
  apply setString_rule
  intro stmt
  apply setString_rule
  intro stmt
  apply execute_rule
  apply createStatement_rule
  apply executeQuery_rule
  intro rows
  apply next_rule
  · exact return_rule hop (by simp) (finished_of_returned rfl rfl rfl (hrow _))
  · intro row rest
    apply getInt_rule
    intro result
    exact return_rule hop (by simp) (finished_of_returned rfl rfl rfl (hrow _))

/-- Without a row, the end of the `try` block is left with the connection. -/
theorem watch_CheckEmail (name email : Bytes) :
    Watch (κ := κ) (Stage (.CheckEmail name email))
      (fun usage _ => Finished (.CheckEmail name email) usage)
      (MysqlOp.CheckEmail name email).program init := by
  refine watch_program rfl fun con => tryCatch_rule ?_ handler_rule
  have hop : ¬ (MysqlOp.CheckEmail name email).IsCheckPwd := by simp [MysqlOp.IsCheckPwd]
  simp only [Option.isNone_some, Bool.false_eq_true, if_false]
  apply prepareStatement_rule
  apply setString_rule
  intro stmt
  apply executeQuery_rule
  intro rows
  apply next_rule
  · -- without a row the function returns past the loop, still with the connection
    refine pure_rule ⟨rfl, con, rfl, .inl ⟨⟨?_, rfl, rfl⟩, rfl⟩⟩
    simp [MysqlOp.IsCheckEmail]
  · intro row rest
    apply getString_rule
    intro _
    apply getString_rule
    intro stored
    have hrow {usage : MysqlUsage κ} (hsome : usage.noRows = false) :
        ¬ NoRowFound (.CheckEmail name email) usage := by simp [NoRowFound, hsome]
    dsimp only
    split
    · exact return_rule hop (by simp) (finished_of_returned rfl rfl rfl (hrow rfl))
    · exact return_rule hop (by simp) (finished_of_returned rfl rfl rfl (hrow rfl))

theorem watch_UpdatePwd (name newpwd : Bytes) :
    Watch (κ := κ) (Stage (.UpdatePwd name newpwd))
      (fun usage _ => Finished (.UpdatePwd name newpwd) usage)
      (MysqlOp.UpdatePwd name newpwd).program init := by
  refine watch_program rfl fun con => tryCatch_rule ?_ handler_rule
  have hop : ¬ (MysqlOp.UpdatePwd name newpwd).IsCheckPwd := by simp [MysqlOp.IsCheckPwd]
  simp only [Option.isNone_some, Bool.false_eq_true, if_false]
  apply prepareStatement_rule
  apply setString_rule
  intro stmt
  apply setString_rule
  intro stmt
  apply executeUpdate_rule
  intro count
  refine return_rule hop (by simp) (finished_of_returned rfl rfl rfl ?_)
  simp [NoRowFound, MysqlOp.IsCheckEmail]

/-- The `Defer` runs behind the destructors, so the connection goes back last. -/
theorem watch_CheckPwd (name pwd : Bytes) :
    Watch (κ := κ) (Stage (.CheckPwd name pwd))
      (fun usage _ => Finished (.CheckPwd name pwd) usage)
      (MysqlOp.CheckPwd name pwd).program init := by
  have hop : (MysqlOp.CheckPwd name pwd).IsCheckPwd := by simp [MysqlOp.IsCheckPwd]
  refine watch_program rfl fun con => ?_
  rw [Watch, Program.wp_bind]
  refine Program.wp_mono (fun _ _ => defer_rule hop) (tryCatch_rule ?_ ?_)
  · simp only [Option.isNone_some, Bool.false_eq_true, if_false]
    have hcompare (res : ResultSet) (noRows : Bool) (origin_pwd : Bytes) :
        WatchTry (Stage (.CheckPwd name pwd))
          (Exit con [.ResultSet, .PreparedStatement] fun usage _ =>
            Deferred con ((usage.destroy .ResultSet).destroy .PreparedStatement))
          (if pwd ≠ origin_pwd then pure none
            else do
              let email ← getString res "email"
              let uid ← getInt res "uid"
              pure (some (UserInfo.mk name origin_pwd uid email)))
          (holding con [.ResultSet, .PreparedStatement] res noRows) := by
      split
      · exact pure_rule ⟨rfl, rfl, rfl, rfl⟩
      · apply getString_rule
        intro email
        apply getInt_rule
        intro uid
        exact pure_rule ⟨rfl, rfl, rfl, rfl⟩
    apply prepareStatement_rule
    apply setString_rule
    intro stmt
    apply executeQuery_rule
    intro rows
    apply next_rule
    · exact hcompare ⟨none, []⟩ true []
    · intro row rest
      exact getString_rule fun origin_pwd => hcompare ⟨some row, rest⟩ false origin_pwd
  · intro res noRows
    exact ⟨stage_raise, rfl, rfl, rfl, rfl⟩

theorem watch_op (op : MysqlOp) :
    Watch (κ := κ) (Stage op) (fun usage _ => Finished op usage) op.program init := by
  cases op with
  | RegUser name email pwd => exact watch_RegUser name email pwd
  | CheckEmail name email => exact watch_CheckEmail name email
  | UpdatePwd name newpwd => exact watch_UpdatePwd name newpwd
  | CheckPwd name pwd => exact watch_CheckPwd name pwd

theorem Stage.returns (hstage : Stage op usage) :
    usage.returned <+: usage.taken ∧ none ∉ usage.returned := by
  cases hstage with
  | before htaken hreturned halive hearly => simp [htaken, hreturned]
  | holding con htaken hreturned hearly => simp [htaken, hreturned]
  | after con htaken hreturned hearly halive => simp [htaken, hreturned]

theorem Stage.early_iff (hstage : Stage op usage) :
    usage.early = true ↔ usage.returned ≠ [] ∧ ¬ op.IsCheckPwd ∧ usage.raised = false := by
  cases hstage with
  | before htaken hreturned halive hearly => simp [hreturned, hearly]
  | holding con htaken hreturned hearly => simp [hreturned, hearly]
  | after con htaken hreturned hearly halive => simp [hreturned, hearly]

theorem Stage.drop_of_alive (hstage : Stage op usage) (hearly : usage.early = false)
    (halive : usage.alive ≠ []) : usage.taken.drop usage.returned.length = usage.taken := by
  cases hstage with
  | before htaken hreturned hnone _ => exact absurd hnone halive
  | holding con htaken hreturned _ => rw [hreturned, List.length_nil, List.drop_zero]
  | after con htaken hreturned _ hnone => exact absurd (hnone hearly) halive

/-- The observer and the pool see the same connections taken and put back. -/
theorem observe_connections (usage : MysqlUsage κ) (effect : PoolEffect (Option κ) (MysqlEffect κ))
    (answer : effect.Answer (@MysqlEffect.Reply κ)) :
    (usage.observe effect answer).taken = usage.taken ++ Monitor.taken [⟨effect, answer⟩] ∧
      (usage.observe effect answer).returned =
        usage.returned ++ Monitor.returned [⟨effect, answer⟩] := by
  have hread (name : String) :
      (usage.read name).taken = usage.taken ∧ (usage.read name).returned = usage.returned := by
    unfold read
    split <;> exact ⟨rfl, rfl⟩
  have hadvance : usage.advance.taken = usage.taken ∧ usage.advance.returned = usage.returned := by
    unfold advance
    split <;> exact ⟨rfl, rfl⟩
  rcases effect with _ | con | effect
  · simp [observe, take, Monitor.taken, Monitor.returned]
  · simp [observe, putBack, Monitor.taken, Monitor.returned]
  · simp only [Monitor.taken, Monitor.returned, List.append_nil]
    cases effect with
    | destroy object => exact ⟨rfl, rfl⟩
    | _ =>
        rcases answer with _ | _
        · exact ⟨rfl, rfl⟩
        · first | exact ⟨rfl, rfl⟩ | exact hread _ | exact hadvance

end MysqlUsage

theorem MysqlCall.usage_connections {κ : Type} (call : MysqlCall κ) :
    call.usage.taken = taken call.trace ∧ call.usage.returned = returned call.trace := by
  rw [MysqlCall.usage]
  induction call.trace using List.reverseRecOn with
  | nil => exact ⟨rfl, rfl⟩
  | append_singleton trace entry ih =>
      obtain ⟨effect, answer⟩ := entry
      rw [Monitor.usage_concat, taken_append, returned_append, ← ih.1, ← ih.2]
      exact MysqlUsage.observe_connections _ effect answer

/-! ### Runs -/

namespace MysqlCalls

open MysqlUsage

variable {κ : Type} {connections : List κ} {calls : MysqlCalls κ} {events : List (MysqlCallEvent κ)}

theorem watchedSystem_of_run (hrun : Machine.run step (init connections) events = some calls) :
    WatchedSystem MysqlUsage.observe MysqlUsage.init (fun con => con ≠ none) Stage
      (fun op usage _ => Finished op usage) calls := by
  refine watched_of_run watch_op ?_ ?_ hrun
  · intro op usage con hstage hnone
    refine hstage.returns.2 ?_
    rw [hnone]
    simp [MysqlUsage.observe, MysqlUsage.putBack]
  · simp

theorem stage_of_run (hrun : Machine.run step (init connections) events = some calls) :
    ∀ call ∈ calls.running ++ calls.finished, Stage call.op (MysqlCall.usage call) :=
  (watchedSystem_of_run hrun).here

theorem finished_of_run (hrun : Machine.run step (init connections) events = some calls) :
    ∀ call ∈ calls.finished, Finished call.op (MysqlCall.usage call) := by
  intro call hcall
  obtain ⟨-, hfinished⟩ := (watchedSystem_of_run hrun).over call hcall
  exact hfinished

theorem returns_of_run (hrun : Machine.run step (init connections) events = some calls) :
    ∀ call ∈ calls.running ++ calls.finished,
      returned call.trace <+: taken call.trace ∧ none ∉ returned call.trace := by
  intro call hcall
  obtain ⟨htaken, hreturned⟩ := MysqlCall.usage_connections call
  rw [← htaken, ← hreturned]
  exact (stage_of_run hrun call hcall).returns

/-- What a call has taken it puts back, once and before it returns, and no null connection; and the
pool is whole while no call is in flight. -/
structure Conserved (connections : List κ) (calls : MysqlCalls κ) : Prop where
  finished : ∀ call ∈ calls.finished, returned call.trace = taken call.trace
  running : ∀ call ∈ calls.running, returned call.trace <+: taken call.trace
  null : ∀ call ∈ calls.running ++ calls.finished, none ∉ returned call.trace
  quiet : calls.running = [] → calls.idle.Perm (connections.map some)

theorem returned_eq_taken_iff (hrun : Machine.run step (init connections) events = some calls)
    {call : MysqlCall κ} (hcall : call ∈ calls.finished) :
    returned call.trace = taken call.trace ↔ ¬ NoRowFound call.op (MysqlCall.usage call) := by
  obtain ⟨htaken, hreturned⟩ := MysqlCall.usage_connections call
  rw [← htaken, ← hreturned]
  obtain ⟨con, htook, ⟨hnone, hkept⟩ | ⟨hrow, hback⟩⟩ := (finished_of_run hrun call hcall).returned
  · simp [htook, hkept, hnone]
  · simp [htook, hback, hrow]

/-- **Conservation of the connections.** In every run the connections are conserved exactly if no
`CheckEmail` has ended without finding a row. -/
theorem conserved_iff (hrun : Machine.run step (init connections) events = some calls) :
    Conserved connections calls ↔
      ∀ call ∈ calls.finished, ¬ NoRowFound call.op (MysqlCall.usage call) := by
  constructor
  · intro hconserved call hcall
    exact (returned_eq_taken_iff hrun hcall).mp (hconserved.finished call hcall)
  · intro hrow
    have hreturns := returns_of_run hrun
    have hfinished : ∀ call ∈ calls.finished, returned call.trace = taken call.trace :=
      fun call hcall => (returned_eq_taken_iff hrun hcall).mpr (hrow call hcall)
    refine ⟨hfinished, fun call hcall => (hreturns call (List.mem_append_left _ hcall)).1,
      fun call hcall => (hreturns call hcall).2, fun hquiet => ?_⟩
    refine idle_perm_of_quiet hrun (fun call hcall => (hreturns call hcall).1) hquiet ?_
    intro call hcall
    rw [held, hfinished call hcall, List.drop_length]

/-- What a server answers that raises no exception and has these rows for every query. -/
def answering (rows : List SqlRow) : (effect : MysqlEffect κ) → Option (MysqlEffect.Reply effect)
  | .executeUpdate _ _ _ => some (.ok rows.length)
  | .executeQuery _ _ _ => some (.ok rows)
  | .destroy _ => some ()
  | .prepareStatement _ _ => some (.ok ())
  | .createStatement _ => some (.ok ())
  | .setString _ _ => some (.ok ())
  | .execute _ _ _ => some (.ok ())
  | .next => some (.ok ())
  | .getString _ => some (.ok ())
  | .getInt _ => some (.ok ())

def turns : Nat → List (MysqlCallEvent κ)
  | 0 => []
  | rounds + 1 => .proceed 0 (answering []) 0 :: .proceed 1 (answering []) 0 :: turns rounds

theorem conserved_UpdatePwd :
    ∃ calls, Machine.run step (init [false, true])
        (.start (.UpdatePwd [97] [98]) :: .start (.RegUser [99] [100] [101]) :: turns 7 ++
          .finish 0 :: List.replicate 6 (.proceed 0 (answering []) 0) ++ [.finish 0])
        = some calls ∧ Conserved [false, true] calls := by
  obtain ⟨calls, hrun, hops⟩ := Option.map_eq_some_iff.mp
    (show (Machine.run step (init [false, true])
        (.start (.UpdatePwd [97] [98]) :: .start (.RegUser [99] [100] [101]) :: turns 7 ++
          .finish 0 :: List.replicate 6 (.proceed 0 (answering []) 0) ++ [.finish 0])).map
          (fun calls => calls.finished.map Call.op)
        = some [.UpdatePwd [97] [98], .RegUser [99] [100] [101]] from rfl)
  refine ⟨calls, hrun, (conserved_iff hrun).mpr fun call hcall => ?_⟩
  have hop := hops ▸ List.mem_map_of_mem hcall
  rcases List.mem_pair.mp hop with hop | hop
  · simp [NoRowFound, hop, MysqlOp.IsCheckEmail]
  · simp [NoRowFound, hop, MysqlOp.IsCheckEmail]

/-- `CheckEmail` for a name that is not in the table returns with the only connection. -/
theorem connection_lost :
    ∃ calls, Machine.run step (init [()])
        (.start (.CheckEmail [97] [98]) :: List.replicate 7 (.proceed 0 (answering []) 0) ++
          [.finish 0]) = some calls ∧
      calls.running.length = 0 ∧ calls.idle = [] ∧ ¬ Conserved [()] calls := by
  obtain ⟨calls, hrun, hfinish⟩ := Option.map_eq_some_iff.mp
    (show (Machine.run step (init [()])
        (.start (.CheckEmail [97] [98]) :: List.replicate 7 (.proceed 0 (answering []) 0) ++
          [.finish 0])).map (fun calls => (calls.running.length, calls.idle))
        = some (0, []) from rfl)
  obtain ⟨hrunning, hidle⟩ := Prod.mk.inj hfinish
  refine ⟨calls, hrun, hrunning, hidle, fun hconserved => ?_⟩
  have hperm := hconserved.quiet (List.length_eq_zero_iff.mp hrunning)
  exact absurd hperm.length_eq (by simp [hidle])

/-! ### Exclusive use -/

/-- No connection has been put back with a statement of the call alive, and no call has a statement on
a connection that another call holds. -/
structure Exclusive (calls : MysqlCalls κ) : Prop where
  returns : ∀ call ∈ calls.running ++ calls.finished, (MysqlCall.usage call).early = false
  apart : ∀ before call after, calls.running = before ++ call :: after →
    (MysqlCall.usage call).alive ≠ [] →
      ∀ con ∈ taken call.trace, ∀ other ∈ before ++ after, con ∉ held other.trace

theorem early_eq_false_iff (hrun : Machine.run step (init connections) events = some calls)
    {call : MysqlCall κ} (hcall : call ∈ calls.running ++ calls.finished) :
    (MysqlCall.usage call).early = false ↔
      (returned call.trace ≠ [] → call.op.IsCheckPwd ∨ (MysqlCall.usage call).raised = true) := by
  rw [← (MysqlCall.usage_connections call).2, ← Bool.not_eq_true,
    (stage_of_run hrun call hcall).early_iff, ← Bool.not_eq_false]
  tauto

/-- **Exclusive use of a connection.** In every run the connections are used exclusively exactly if
every call that has put its connection back is a `CheckPwd` or has raised an SQLException. -/
theorem exclusive_iff (hconnections : connections.Nodup)
    (hrun : Machine.run step (init connections) events = some calls) :
    Exclusive calls ↔ ∀ call ∈ calls.running ++ calls.finished, returned call.trace ≠ [] →
      call.op.IsCheckPwd ∨ (MysqlCall.usage call).raised = true := by
  constructor
  · intro hexclusive call hcall
    exact (early_eq_false_iff hrun hcall).mp (hexclusive.returns call hcall)
  · intro hlate
    refine ⟨fun call hcall => (early_eq_false_iff hrun hcall).mpr (hlate call hcall), ?_⟩
    intro before call after hsplit halive con hcon other hother
    have hcall : call ∈ calls.running ++ calls.finished := by simp [hsplit]
    have hearly := (early_eq_false_iff hrun hcall).mpr (hlate call hcall)
    have hdrop := (stage_of_run hrun call hcall).drop_of_alive hearly halive
    rw [(MysqlCall.usage_connections call).1, (MysqlCall.usage_connections call).2] at hdrop
    have hunique := held_unique (hconnections.map (Option.some_injective κ)) hrun
      (fun call hcall => (returns_of_run hrun call hcall).1) hsplit (by rwa [held, hdrop])
    exact hunique.2 other hother

theorem exclusive_CheckPwd :
    [false, true].Nodup ∧ ∃ calls, Machine.run step (init [false, true])
        (.start (.CheckPwd [97] [98]) :: .start (.CheckPwd [99] [100]) :: turns 8 ++ [.finish 0])
        = some calls ∧ Exclusive calls := by
  obtain ⟨calls, hrun, hops⟩ := Option.map_eq_some_iff.mp
    (show (Machine.run step (init [false, true])
        (.start (.CheckPwd [97] [98]) :: .start (.CheckPwd [99] [100]) :: turns 8 ++
          [.finish 0])).map (fun calls => (calls.running ++ calls.finished).map Call.op)
        = some [.CheckPwd [99] [100], .CheckPwd [97] [98]] from rfl)
  refine ⟨by decide, calls, hrun, (exclusive_iff (by decide) hrun).mpr fun call hcall _ => .inl ?_⟩
  have hop := hops ▸ List.mem_map_of_mem hcall
  rcases List.mem_pair.mp hop with hop | hop
  · simp [hop, MysqlOp.IsCheckPwd]
  · simp [hop, MysqlOp.IsCheckPwd]

/-- While the statement of the first `UpdatePwd` is alive, the second one gets its connection. -/
theorem connection_shared :
    ∃ calls, Machine.run step (init [()])
        (.start (.UpdatePwd [97] [98]) :: .start (.UpdatePwd [97] [98]) ::
          List.replicate 6 (.proceed 0 (answering []) 0) ++ [.proceed 1 (answering []) 0])
        = some calls ∧
      calls.running.map (fun call =>
          ((MysqlCall.usage call).alive, (MysqlCall.usage call).early, held call.trace))
        = [([.PreparedStatement], true, []), ([], false, [some ()])] ∧
      ¬ Exclusive calls := by
  obtain ⟨calls, hrun, hcalls⟩ := Option.map_eq_some_iff.mp
    (show (Machine.run step (init [()])
        (.start (.UpdatePwd [97] [98]) :: .start (.UpdatePwd [97] [98]) ::
          List.replicate 6 (.proceed 0 (answering []) 0) ++ [.proceed 1 (answering []) 0])).map
          (fun calls => calls.running.map fun call =>
            ((MysqlCall.usage call).alive, (MysqlCall.usage call).early, held call.trace))
        = some [([.PreparedStatement], true, []), ([], false, [some ()])] from rfl)
  refine ⟨calls, hrun, hcalls, fun hexclusive => ?_⟩
  obtain ⟨call, hcall, heq⟩ := List.mem_map.mp (hcalls ▸ List.mem_cons_self)
  have hearly := hexclusive.returns call (List.mem_append_left _ hcall)
  rw [(Prod.mk.inj (Prod.mk.inj heq).2).1] at hearly
  exact absurd hearly (by decide)

end MysqlCalls

end QuickChat
