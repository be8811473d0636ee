import QuickChat.Common.ConfigMgr
import QuickChat.Common.Const
import QuickChat.Gate.JsonValue
import QuickChat.Lib.Program

/-!
# The handlers of the gate server

A handler reads the body of a request, calls the managers of Redis and MySQL, and writes JSON
documents to the body of the response. An exception of `Json::Value` leaves the handler where it is
raised; what has been called and written by then stays.
-/

namespace QuickChat

open Text

inductive GateCall where
  /-- `RedisMgr::GetInstance()->Get`, with an empty out parameter -/
  | RedisGet (key : Bytes)
  | RegUser (name email pwd : Bytes)
  | CheckEmail (name email : Bytes)
  | UpdatePwd (name pwd : Bytes)
  /-- a document is written to the response -/
  | respond (root : JsonValue)

def GateCall.Answer : GateCall → Type
  | RedisGet _ => Bool × Bytes
  | RegUser _ _ _ => Int
  | CheckEmail _ _ => Bool
  | UpdatePwd _ _ => Bool
  | respond _ => Unit

abbrev GateProgram (α : Type) := Program GateCall GateCall.Answer α

/-- A handler, which an exception of `Json::Value` may leave. -/
abbrev GateHandler (α : Type) := ExceptT LogicError GateProgram α

namespace LogicSystem

def RedisGet (key : Bytes) : GateHandler (Bool × Bytes) :=
  ExceptT.lift (Program.perform (GateCall.RedisGet key))

def RegUser (name email pwd : Bytes) : GateHandler Int :=
  ExceptT.lift (Program.perform (GateCall.RegUser name email pwd))

def CheckEmail (name email : Bytes) : GateHandler Bool :=
  ExceptT.lift (Program.perform (GateCall.CheckEmail name email))

def UpdatePwd (name pwd : Bytes) : GateHandler Bool :=
  ExceptT.lift (Program.perform (GateCall.UpdatePwd name pwd))

def respond (root : JsonValue) : GateHandler Unit :=
  ExceptT.lift (Program.perform (GateCall.respond root))

def field (src_root : JsonValue) (key : String) : GateHandler Bytes :=
  ExceptT.mk (pure (src_root.field key))

def errorRoot (code : ErrorCodes) : JsonValue := .object [(ascii "error", .int code.value)]

/-- The verification step that `/user_register` and `/reset_pwd` have in common, before `next`. -/
def verification (cfg : ConfigMgr) (src_root : JsonValue) (email : Bytes)
    (next : Bytes → GateHandler Bool) : GateHandler Bool := do
  let (b_get_verify, verify_code) ← RedisGet (cfg.value "Redis" "verify_prefix" ++ email)
  if ¬ b_get_verify then
    respond (errorRoot .VerifyExpired)
    return true
  let verifycode ← field src_root "verifycode"
  if verify_code ≠ verifycode then
    respond (errorRoot .VerifyCodeErr)
    return true
  next verifycode

def user_register_verified (email name pwd confirm verifycode : Bytes) : GateHandler Bool := do
  let uid ← RegUser name email pwd
  if uid = 0 ∨ uid = -1 then
    respond (errorRoot .UserExist)
    return true
  respond (.object [(ascii "error", .int 0), (ascii "uid", .int uid),
    (ascii "email", .string email), (ascii "user", .string name), (ascii "passwd", .string pwd),
    (ascii "confirm", .string confirm), (ascii "verifycode", .string verifycode)])
  return true

/-- The handler goes on after it has written that the passwords differ. -/
def user_register (cfg : ConfigMgr) (parse : Bytes → Option JsonValue) (body_str : Bytes) :
    GateHandler Bool := do
  match parse body_str with
  | none =>
      respond (errorRoot .Error_Json)
      return true
  | some src_root =>
      let email ← field src_root "email"
      let name ← field src_root "user"
      let pwd ← field src_root "passwd"
      let confirm ← field src_root "confirm"
      if pwd ≠ confirm then
        respond (errorRoot .PasswdErr)
      verification cfg src_root email (user_register_verified email name pwd confirm)

def reset_pwd_verified (email name pwd verifycode : Bytes) : GateHandler Bool := do
  let email_valid ← CheckEmail name email
  if ¬ email_valid then
    respond (errorRoot .EmailNotMatch)
    return true
  let b_up ← UpdatePwd name pwd
  if ¬ b_up then
    respond (errorRoot .PasswdUpFailed)
    return true
  respond (.object [(ascii "error", .int 0), (ascii "email", .string email),
    (ascii "user", .string name), (ascii "passwd", .string pwd),
    (ascii "verifycode", .string verifycode)])
  return true

def reset_pwd (cfg : ConfigMgr) (parse : Bytes → Option JsonValue) (body_str : Bytes) :
    GateHandler Bool := do
  match parse body_str with
  | none =>
      respond (errorRoot .Error_Json)
      return true
  | some src_root =>
      let email ← field src_root "email"
      let name ← field src_root "user"
      let pwd ← field src_root "passwd"
      verification cfg src_root email (reset_pwd_verified email name pwd)

end LogicSystem

end QuickChat
