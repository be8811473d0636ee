import QuickChat.Lib.Text

/-!
# JSON values

What the handlers use of `Json::Value`: members of an object by name and the conversion to a string.
Both throw a `Json::LogicError` for values they do not apply to. The parser is not part of the
repository; where one is needed it is a function from the bytes of a body.
-/

namespace QuickChat

open Text

inductive LogicError where
  | notObject
  | notConvertible
  deriving DecidableEq, Repr

/-- A real number is kept as the text that `asString` gives for it. -/
inductive JsonValue where
  | null
  | bool (b : Bool)
  | int (n : Int)
  | real (text : Bytes)
  | string (s : Bytes)
  | array (values : List JsonValue)
  | object (members : List (Bytes × JsonValue))

namespace JsonValue

/-- `value[key]`: a null value counts as an empty object, and a missing member is null. -/
def member (value : JsonValue) (key : String) : Except LogicError JsonValue :=
  match value with
  | null => .ok null
  | object members => .ok ((members.lookup (ascii key)).getD null)
  | _ => .error .notObject

def asString : JsonValue → Except LogicError Bytes
  | null => .ok []
  | bool b => .ok (ascii (if b then "true" else "false"))
  | int n => .ok (to_string n)
  | real text => .ok text
  | string s => .ok s
  | array _ => .error .notConvertible
  | object _ => .error .notConvertible

def field (value : JsonValue) (key : String) : Except LogicError Bytes := do
  (← value.member key).asString

def error? : JsonValue → Option Int
  | object members =>
      match members.lookup (ascii "error") with
      | some (int n) => some n
      | _ => none
  | _ => none

end JsonValue

end QuickChat
