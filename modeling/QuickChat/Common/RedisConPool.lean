import QuickChat.Common.ConPools
import QuickChat.Common.Redis
import QuickChat.Lib.Sweep

/-!
# The contexts of the Redis pool

What `RedisConPool` does with its contexts: the constructor connects them, the check sends a `PING` over
each, and `ClearConnections` frees them. hiredis is a C library, so none of its functions throws; the
check has a `catch` block for it all the same, and `redisCommand` is given an exception that it may
throw, for that block to have a meaning. The replies are freed where they are looked at, which leaves no
trace here.
-/

namespace QuickChat

open Text

inductive RedisException where
  | thrown
  deriving DecidableEq, Repr

inductive RedisPoolEffect (κ : Type) where
  | redisConnect
  | redisCommand (context : κ) (argv : List Bytes)
  | redisFree (context : κ)
  | load_b_stop_
  /-- reading through a null reply -/
  | nullRead
  /-- the front of an empty queue -/
  | emptyFront

/-- `redisConnect` gives null, or a context and whether its `err` is set. -/
def RedisPoolEffect.Reply {κ : Type} : RedisPoolEffect κ → Type
  | redisConnect => Option (κ × Bool)
  | redisCommand _ _ => Except RedisException (Option redisReply)
  | redisFree _ => Unit
  | load_b_stop_ => Bool
  | nullRead => Empty
  | emptyFront => Empty

abbrev RedisPoolProgram (κ : Type) (α : Type) := Program (RedisPoolEffect κ) RedisPoolEffect.Reply α

abbrev RedisPoolTry (κ : Type) (α : Type) := ExceptT RedisException (RedisPoolProgram κ) α

abbrev RedisPoolTrace (κ : Type) := List ((effect : RedisPoolEffect κ) × effect.Reply)

namespace RedisConPool

variable {κ : Type}

def redisConnect : RedisPoolTry κ (Option (κ × Bool)) :=
  ExceptT.lift (Program.perform RedisPoolEffect.redisConnect)

def redisCommand (context : κ) (argv : List Bytes) : RedisPoolTry κ (Option redisReply) :=
  ExceptT.mk (Program.perform (RedisPoolEffect.redisCommand context argv))

def redisFree (context : κ) : RedisPoolProgram κ Unit :=
  Program.perform (RedisPoolEffect.redisFree context)

def load_b_stop_ : RedisPoolProgram κ Bool := Program.perform RedisPoolEffect.load_b_stop_

def nullRead {α : Type} : RedisPoolTry κ α :=
  ExceptT.mk (Program.call RedisPoolEffect.nullRead Empty.elim)

def emptyFront {α : Type} : RedisPoolProgram κ α :=
  Program.call RedisPoolEffect.emptyFront Empty.elim

/-- The type of the reply to `AUTH` is read without a check for null. -/
def authFailed (context : κ) (pwd : Bytes) : RedisPoolTry κ Bool := do
  match ← redisCommand context [ascii "AUTH", c_str pwd] with
  | none => nullRead
  | some reply => return reply.type = .ERROR

/-- A turn of the constructor's loop, and the same lines in the `catch` block of the check: the context
that is put into the queue. One whose password is refused is not freed. -/
def connect (pwd_ : Option Bytes) : RedisPoolTry κ (Option κ) := do
  match ← redisConnect with
  | none => return none
  | some (context, err) =>
      if err then
        ExceptT.lift (redisFree context)
        return none
      match pwd_ with
      | none => return some context
      | some pwd =>
          if ← authFailed context pwd then
            return none
          return some context

/-- The constructor's loop, from the contexts that are in the queue. -/
def construct (pwd_ : Option Bytes) : Nat → List κ → RedisPoolTry κ (List κ)
  | 0, connections_ => return connections_
  | turns + 1, connections_ => do
      let context ← connect pwd_
      construct pwd_ turns (connections_ ++ context.toList)

def new (poolSize : Nat) (pwd_ : Option Bytes) : RedisPoolTry κ (ConPool κ) := do
  let connections_ ← construct pwd_ poolSize []
  return ConPool.new connections_

/-- A turn of the check: the context that goes back into the queue, and the exception that leaves the
function. -/
def checkOne (pwd_ : Option Bytes) (context : κ) :
    RedisPoolProgram κ (Option κ × Option RedisException) := do
  match ← (redisCommand context [ascii "PING"]).run with
  | .ok none => return (some context, none)
  | .ok (some _) => return (some context, none)
  | .error _ => do
      redisFree context
      match ← (connect pwd_).run with
      | .ok back => return (back, none)
      | .error e => return (none, some e)

/-- `connections_` afterwards, and the exception that leaves the function. -/
def checkThread (pwd_ : Option Bytes) (connections_ : List κ) :
    RedisPoolProgram κ (List κ × Option RedisException) := do
  if ← load_b_stop_ then
    return (connections_, none)
  let pool_size := connections_.length
  Sweep.loop (do return !(← load_b_stop_)) (checkOne pwd_) emptyFront pool_size connections_

/-- Nothing calls it. -/
def ClearConnections : List κ → RedisPoolProgram κ (List κ)
  | [] => return []
  | context :: connections_ => do
      redisFree context
      ClearConnections connections_

end RedisConPool

end QuickChat
