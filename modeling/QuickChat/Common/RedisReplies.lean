import QuickChat.Common.RedisStore

/-!
# The replies that RedisMgr looks at

Behind its command an operation has a pointer to a reply, and what it does with it is here taken apart
into the single accesses: the test for null, the fields that it reads, the type that `Set` assigns, and
the `freeReplyObject` at the end. The texts that go to `std::cout` leave no trace.

A reply lies in memory with the fields of its type. To read another field, or anything through null or
after the reply is freed, has no meaning. Freeing null does nothing.
-/

namespace QuickChat

open Text

/-- `REDIS_REPLY_STRING` and the others. -/
def ReplyType.code : ReplyType → Int
  | STRING => 1
  | ARRAY => 2
  | INTEGER => 3
  | NIL => 4
  | STATUS => 5
  | ERROR => 6

/-- A reply as hiredis makes it, with the field that its type has. The elements of an array are read by
no operation. -/
inductive HiredisReply where
  | STATUS (str : Bytes)
  | ERROR (str : Bytes)
  | INTEGER (integer : Int)
  | NIL
  | STRING (str : Bytes)
  | ARRAY
  deriving DecidableEq, Repr

def HiredisReply.object : HiredisReply → redisReply
  | STATUS str => ⟨.STATUS, 0, some str⟩
  | ERROR str => ⟨.ERROR, 0, some str⟩
  | INTEGER integer => ⟨.INTEGER, integer, none⟩
  | NIL => ⟨.NIL, 0, none⟩
  | STRING str => ⟨.STRING, 0, some str⟩
  | ARRAY => ⟨.ARRAY, 0, none⟩

inductive ReplyEffect where
  | isNull
  | type
  | integer
  | str
  | assignType (type : Int)
  | freeReplyObject

def ReplyEffect.Answer : ReplyEffect → Type
  | isNull => Bool
  | type => Int
  | integer => Int
  | str => Bytes
  | assignType _ => Unit
  | freeReplyObject => Unit

abbrev ReplyProgram (α : Type) := Program ReplyEffect ReplyEffect.Answer α

/-- What the pointer points to, the value of its type field, and that value when it was freed. -/
structure ReplyCell where
  reply : Option redisReply
  type : Int
  freed : Option Int

namespace ReplyCell

def received (reply : Option redisReply) : ReplyCell :=
  ⟨reply, (reply.map fun reply => reply.type.code).getD 0, none⟩

def live (cell : ReplyCell) : Option redisReply :=
  if cell.freed.isSome then none else cell.reply

def serve : (effect : ReplyEffect) → StateT ReplyCell Option effect.Answer
  | .isNull => fun cell => some (cell.reply.isNone, cell)
  | .type => fun cell => cell.live.map fun _ => (cell.type, cell)
  | .integer => fun cell =>
      (cell.live.filter fun reply => reply.type = .INTEGER).map fun reply => (reply.integer, cell)
  | .str => fun cell =>
      (cell.live.bind fun reply => reply.str).map fun str => (c_str str, cell)
  | .assignType type => fun cell => cell.live.map fun _ => ((), { cell with type := type })
  | .freeReplyObject => fun cell =>
      if cell.reply.isNone then some ((), cell)
      else cell.live.map fun _ => ((), { cell with freed := some cell.type })

end ReplyCell

def ReplyProgram.runOn {α : Type} (program : ReplyProgram α) (cell : ReplyCell) :
    Option (α × ReplyCell) :=
  (program.interp ReplyCell.serve).run cell

/-- What a program makes of a reply, and the reply afterwards; none when it makes an access that has no
meaning. -/
def ReplyProgram.over {α : Type} (program : ReplyProgram α) (reply : Option redisReply) :
    Option (α × ReplyCell) :=
  program.runOn (ReplyCell.received reply)

/-- Whether an operation reports success, and the value that it takes from the reply. What `HGet`
reports goes to `std::cout` only. -/
structure ReplyReport where
  ok : Bool
  value : Option Bytes
  deriving DecidableEq, Repr

namespace ReplyReport

def failure : ReplyReport := ⟨false, none⟩
def success : ReplyReport := ⟨true, none⟩
def found (value : Bytes) : ReplyReport := ⟨true, some value⟩

end ReplyReport

/-! ### The lines behind each command -/

namespace RedisMgr.AfterCommand

def isNull : ReplyProgram Bool := Program.perform ReplyEffect.isNull

def type : ReplyProgram Int := Program.perform ReplyEffect.type

def typeIs (asked : ReplyType) : ReplyProgram Bool := do
  return decide ((← type) = asked.code)

def typeIsNot (asked : ReplyType) : ReplyProgram Bool := do
  return decide ((← type) ≠ asked.code)

def integer : ReplyProgram Int := Program.perform ReplyEffect.integer

def str : ReplyProgram Bytes := Program.perform ReplyEffect.str

def strIs (text : String) : ReplyProgram Bool := do
  return decide ((← str) = ascii text)

def assignType (type : Int) : ReplyProgram Unit := Program.perform (ReplyEffect.assignType type)

def freeReplyObject : ReplyProgram Unit := Program.perform ReplyEffect.freeReplyObject

def leave (report : ReplyReport) : ReplyProgram ReplyReport := do
  freeReplyObject
  return report

def Get : ReplyProgram ReplyReport := do
  if ← isNull <||> typeIsNot .STRING then
    leave .failure
  else
    leave (.found (← str))

/-- `reply->type = REDIS_REPLY_STATUS && (...)`: the assignment binds weaker than `&&`, so the type
becomes 1 or 0, and is what is tested. -/
def Set : ReplyProgram ReplyReport := do
  if ← isNull then
    leave .failure
  else
    let ok ← strIs "OK" <||> strIs "ok"
    let type : Int := if ReplyType.STATUS.code ≠ 0 ∧ ok = true then 1 else 0
    assignType type
    if type = 0 then
      leave .failure
    else
      leave .success

def Auth : ReplyProgram ReplyReport := do
  if ← typeIs .ERROR then
    leave .failure
  else
    leave .success

def push : ReplyProgram ReplyReport := do
  if ← isNull then
    leave .failure
  else if ← typeIsNot .INTEGER <||> (do return decide ((← integer) ≤ 0)) then
    leave .failure
  else
    leave .success

def LPush : ReplyProgram ReplyReport := push

def RPush : ReplyProgram ReplyReport := push

/-- The text of any reply that is not nil. -/
def unlessNil : ReplyProgram ReplyReport := do
  if ← isNull <||> typeIs .NIL then
    leave .failure
  else
    leave (.found (← str))

def LPop : ReplyProgram ReplyReport := unlessNil

def RPop : ReplyProgram ReplyReport := unlessNil

def HGet : ReplyProgram ReplyReport := unlessNil

def ifInteger : ReplyProgram ReplyReport := do
  if ← isNull <||> typeIsNot .INTEGER then
    leave .failure
  else
    leave .success

def HSet : ReplyProgram ReplyReport := ifInteger

def HSetLen : ReplyProgram ReplyReport := ifInteger

def Del : ReplyProgram ReplyReport := ifInteger

def ExistsKey : ReplyProgram ReplyReport := do
  if ← isNull <||> typeIsNot .INTEGER <||> (do return decide ((← integer) = 0)) then
    leave .failure
  else
    leave .success

end RedisMgr.AfterCommand

namespace RedisOp

open RedisMgr

def afterCommand : RedisOp → ReplyProgram ReplyReport
  | Get _ _ => AfterCommand.Get
  | Set _ _ => AfterCommand.Set
  | Auth _ => AfterCommand.Auth
  | LPush _ _ => AfterCommand.LPush
  | LPop _ _ => AfterCommand.LPop
  | RPush _ _ => AfterCommand.RPush
  | RPop _ _ => AfterCommand.RPop
  | HSet _ _ _ => AfterCommand.HSet
  | HSetLen _ _ _ _ => AfterCommand.HSetLen
  | HGet _ _ => AfterCommand.HGet
  | Del _ => AfterCommand.Del
  | ExistsKey _ => AfterCommand.ExistsKey

/-- What the caller gets for a report: the out parameter keeps its value when none is found. -/
def returns : RedisOp → ReplyReport → RedisResult
  | Get _ value, report => .read report.ok (report.value.getD value)
  | LPop _ value, report => .read report.ok (report.value.getD value)
  | RPop _ value, report => .read report.ok (report.value.getD value)
  | HGet _ _, report => .text (report.value.getD [])
  | _, report => .done report.ok

def accessing {κ : Type} (op : RedisOp) : RedisProgram κ RedisResult := do
  let connect ← RedisMgr.getConnection
  if connect.isNone then
    return op.returns .failure
  match op.afterCommand.over (← RedisMgr.redisCommand connect op.sent.argv) with
  | none => RedisMgr.nullRead
  | some (report, _) => return op.returns report

end RedisOp

end QuickChat
