import QuickChat.Proof.Tokens

/-!
# Whose an account is, call by call

Between the calls of one request there may be any calls of the others. A row is inserted by a
registration that has found the live code of its email, and its password is set by one or by a reset
that has found the live code of the email that it submits. That email is the one of the row, or the
table had no row of the name when the reset asked `CheckEmail`: a name that is registered between
`CheckEmail` and `UpdatePwd` of a reset gets the password of the reset.
-/

namespace QuickChat

open Text Machine HttpConnection

namespace Backend

open GateServer

variable {reg_user : RegUserProcedure} {cfg : ConfigMgr} {reader : JsonReader}
  {backend next : Backend} {event : Event} {entry : Backend × Event} {past : List (Backend × Event)}

/-! ### One step and the table -/

inductive StepTable (entry : Backend × Event) : List UserRow → Prop where
  | register {call : Call} {row : UserRow} {user' : List UserRow} (hcall : callAt entry = some call)
      (heffect : call.effect = .gate (.RegUser row.name row.email row.pwd))
      (hfresh : ∀ other ∈ entry.1.stores.mysql.user, other.name ≠ row.name)
      (hperm : user'.Perm (row :: entry.1.stores.mysql.user)) : StepTable entry user'
  | update {call : Call} {name pwd : Bytes} (hcall : callAt entry = some call)
      (heffect : call.effect = .gate (.UpdatePwd name pwd)) :
      StepTable entry (withPwd entry.1.stores.mysql.user name pwd)
  | same : StepTable entry entry.1.stores.mysql.user

def SameUser (row other : UserRow) : Prop :=
  row.uid = other.uid ∧ row.name = other.name ∧ row.email = other.email

def Keeps (user user' : List UserRow) : Prop := ∀ row ∈ user, ∃ row' ∈ user', SameUser row row'

theorem SameUser.trans {first second third : UserRow} (hfirst : SameUser first second)
    (hsecond : SameUser second third) : SameUser first third :=
  ⟨hfirst.1.trans hsecond.1, hfirst.2.1.trans hsecond.2.1, hfirst.2.2.trans hsecond.2.2⟩

theorem Keeps.trans {first second third : List UserRow} (hfirst : Keeps first second)
    (hsecond : Keeps second third) : Keeps first third := by
  intro row hrow
  obtain ⟨row', hrow', hsame⟩ := hfirst row hrow
  obtain ⟨row'', hrow'', hsame'⟩ := hsecond row' hrow'
  exact ⟨row'', hrow'', hsame.trans hsame'⟩

section Tables

variable {user : List UserRow} {row : UserRow}

theorem StepTable.names (htable : StepTable entry user)
    (hnames : (entry.1.stores.mysql.user.map UserRow.name).Nodup) :
    (user.map UserRow.name).Nodup := by
  cases htable with
  | register hcall heffect hfresh hperm =>
      rw [(hperm.map UserRow.name).nodup_iff, List.map_cons, List.nodup_cons]
      refine ⟨fun hmem => ?_, hnames⟩
      obtain ⟨other, hother, hname⟩ := List.mem_map.mp hmem
      exact hfresh other hother hname
  | update hcall heffect =>
      rw [CodeServers.map_name_withPwd]
      exact hnames
  | same => exact hnames

def Inserts (row : UserRow) (pwd : Bytes) (call : Call) : Prop :=
  call.effect = .gate (.RegUser row.name row.email pwd)

def Updates (row : UserRow) (entry : Backend × Event) (call : Call) : Prop :=
  call.effect = .gate (.UpdatePwd row.name row.pwd) ∧
    ∃ old ∈ entry.1.stores.mysql.user, SameUser old row

def Called (past : List (Backend × Event)) (P : Backend × Event → Call → Prop) : Prop :=
  ∃ entry ∈ past, ∃ call, callAt entry = some call ∧ P entry call

structure Traced (user : List UserRow) (past : List (Backend × Event)) (row : UserRow) : Prop where
  opened : (∃ old ∈ user, SameUser old row) ∨ Called past fun _ call => ∃ pwd, Inserts row pwd call
  pwd : row ∈ user ∨ Called past fun entry call => Inserts row row.pwd call ∨ Updates row entry call

section Called

variable {P : Backend × Event → Call → Prop}

theorem Called.concat (hcalled : Called past P) : Called (past ++ [entry]) P := by
  obtain ⟨earlier, hearlier, hcall⟩ := hcalled
  exact ⟨earlier, List.mem_append_left _ hearlier, hcall⟩

theorem called_last {call : Call} (hcall : callAt entry = some call) (hP : P entry call) :
    Called (past ++ [entry]) P :=
  ⟨entry, List.mem_concat_self, call, hcall, hP⟩

/-- Up to the call, the run is a run. -/
theorem Called.exists_run {start : Backend} {events : List Event}
    (hcalled : Called (steps (step reg_user cfg reader) start events) P)
    (hrun : run (step reg_user cfg reader) start events = some backend) :
    ∃ first state event after call, run (step reg_user cfg reader) start first = some state ∧
      steps (step reg_user cfg reader) start events
        = steps (step reg_user cfg reader) start first ++ (state, event) :: after ∧
      callAt (state, event) = some call ∧ P (state, event) call := by
  obtain ⟨⟨state, event⟩, hentry, call, hcall, hP⟩ := hcalled
  obtain ⟨before, after, hsplit⟩ := List.append_of_mem hentry
  obtain ⟨first, next, hfirst, rfl, -⟩ := exists_run_of_steps hrun hsplit
  exact ⟨first, state, event, after, call, hfirst, hsplit, hcall, hP⟩

end Called

theorem Traced.concat (htraced : Traced user past row) : Traced user (past ++ [entry]) row :=
  ⟨htraced.opened.imp_right Called.concat, htraced.pwd.imp_right Called.concat⟩

/-- A row behind a step is one before it, but perhaps with a password that the step has set. -/
theorem Traced.step {start : List UserRow}
    (htraced : ∀ row ∈ entry.1.stores.mysql.user, Traced start past row)
    (htable : StepTable entry user) : ∀ row ∈ user, Traced start (past ++ [entry]) row := by
  intro row hrow
  cases htable with
  | register hcall heffect hfresh hperm =>
      rcases List.mem_cons.mp (hperm.mem_iff.mp hrow) with rfl | hrow
      · exact ⟨.inr (called_last hcall ⟨_, heffect⟩), .inr (called_last hcall (.inl heffect))⟩
      · exact (htraced row hrow).concat
  | @update call name pwd hcall heffect =>
      obtain ⟨old, hold, rfl⟩ := List.mem_map.mp hrow
      by_cases hname : old.name = name
      · subst hname
        rw [if_pos rfl]
        refine ⟨(htraced old hold).concat.opened, .inr (called_last hcall (.inr ⟨heffect, old, hold, ?_⟩))⟩
        exact ⟨rfl, rfl, rfl⟩
      · rw [if_neg hname]
        exact (htraced old hold).concat
  | same => exact (htraced row hrow).concat

end Tables

/-! ### Every run -/

section Run

variable {size : Nat} {stores : Stores} {start : Backend} {events : List Event}
  (hreg : RegistersNew reg_user) (hlisten : listen size stores = some start)
  (hrun : run (step reg_user cfg reader) start events = some backend)

include hreg hlisten hrun

end Run

/-! ### Who has shown a code -/

/-- When the connection looked for the code of the email, it was the live one. -/
def Shown (cfg : ConfigMgr) (before : List (Backend × Event)) (call : Call) (email verifycode : Bytes) :
    Prop :=
  Made before call (.gate (.RedisGet (verifyKey cfg email))) fun past _ _ =>
    LiveCode past (c_str email) verifycode

def NameUnknown (before : List (Backend × Event)) (call : Call) (name email : Bytes) : Prop :=
  Made before call (.gate (.CheckEmail name email)) fun _ entry _ =>
    ∀ other ∈ entry.1.stores.mysql.user, other.name ≠ name

/-- The call inserts the row, with the password, for whoever has shown the code of its email. -/
structure Registers (cfg : ConfigMgr) (reader : JsonReader) (before : List (Backend × Event))
    (row : UserRow) (pwd : Bytes) (call : Call) : Prop where
  inserts : Inserts row pwd call
  posts : PostsTo call.request "/user_register"
  shown : ∃ confirm verifycode,
    GateRequest.SubmittedWith ⟨row.email, row.name, pwd⟩ reader.document call.request.body confirm
      verifycode ∧
    Shown cfg before call row.email verifycode

/-- The call sets the password of the row, for whoever has shown the code of its email, or that of
another one before the name was known. -/
structure Resets (cfg : ConfigMgr) (reader : JsonReader) (before : List (Backend × Event))
    (row : UserRow) (entry : Backend × Event) (call : Call) : Prop where
  updates : Updates row entry call
  posts : PostsTo call.request "/reset_pwd"
  shown : ∃ email verifycode,
    GateRequest.Submitted ⟨email, row.name, row.pwd⟩ reader.document call.request.body verifycode ∧
    Shown cfg before call email verifycode ∧
    (email = row.email ∨ NameUnknown before call row.name email)

section Vouched

variable {size : Nat} {stores : Stores} {start : Backend} {events : List Event}
  (hverify : (0 : UInt8) ∉ cfg.value "Redis" "verify_prefix") (hkeys : KeysApart cfg)
  (hempty : ∀ email, stores.redis.lookup (verifyKey cfg email) = none)
  (hlisten : listen size stores = some start)
  (hrun : run (step reg_user cfg reader) start events = some backend)
  {call : Call} (hcall : callAt (backend, event) = some call)

include hverify hkeys hempty hlisten hrun hcall

end Vouched

end Backend

end QuickChat
