import QuickChat.Common.ConPools
import QuickChat.Common.Redis
import QuickChat.Lib.Pool

/-!
# The operations of RedisMgr

Each operation is a program over the connection pool: it takes a connection, sends a command over it
and looks at the reply. A null pointer stands for a connection that a stopped pool does not give and
for a reply that did not come; an operation that reads through one goes no further.

`redisCommand` cuts a `%s` argument at its first NUL, `redisCommandArgv` takes the lengths it is
given. `std::cout` and `freeReplyObject` leave no trace here.
-/

namespace QuickChat

open Text

/-- What an operation does besides the two operations of the pool, over a connection `κ`. -/
inductive RedisEffect (κ : Type) where
  | redisCommand (connect : Option κ) (argv : List Bytes)
  | nullRead

def RedisEffect.Reply {κ : Type} : RedisEffect κ → Type
  | redisCommand _ _ => Option redisReply
  | nullRead => Empty

abbrev RedisProgram (κ : Type) (α : Type) :=
  PoolProgram (Option κ) (@RedisEffect.Reply κ) α

namespace RedisMgr

variable {κ α : Type}

def getConnection : RedisProgram κ (Option κ) := Program.perform PoolEffect.getConnection

def redisCommand (connect : Option κ) (argv : List Bytes) : RedisProgram κ (Option redisReply) :=
  Program.perform (PoolEffect.other (RedisEffect.redisCommand connect argv))

def nullRead : RedisProgram κ α := .call (.other .nullRead) Empty.elim

/-- The text of a reply, read as a C string. -/
def replyText (reply : redisReply) : RedisProgram κ Bytes :=
  match reply.str with
  | none => nullRead
  | some str => pure (c_str str)

/-- What the operations have in common: a connection, a command, and a reply that is not null. -/
def execute (argv : List Bytes) (failure : α) (onReply : redisReply → RedisProgram κ α) :
    RedisProgram κ α := do
  let connect ← getConnection
  if connect.isNone then
    return failure
  match ← redisCommand connect argv with
  | none => return failure
  | some reply => onReply reply

/-- The second result is the out parameter `value`. -/
def Get (key value : Bytes) : RedisProgram κ (Bool × Bytes) :=
  execute [ascii "GET", c_str key] (false, value) fun reply => do
    if reply.type ≠ .STRING then
      return (false, value)
    return (true, ← replyText reply)

/-- The check of the reply assigns to its type: what is tested is the comparison of the text. -/
def Set (key value : Bytes) : RedisProgram κ Bool :=
  execute [ascii "SET", c_str key, c_str value] false fun reply => do
    let str ← replyText reply
    return str = ascii "OK" ∨ str = ascii "ok"

/-- `Auth` alone does not check for a null reply. -/
def Auth (password : Bytes) : RedisProgram κ Bool := do
  let connect ← getConnection
  if connect.isNone then
    return false
  match ← redisCommand connect [ascii "AUTH", c_str password] with
  | none => nullRead
  | some reply => return reply.type ≠ .ERROR

def pushCommand (command : String) (key value : Bytes) : RedisProgram κ Bool :=
  execute [ascii command, c_str key, c_str value] false fun reply =>
    return ¬ (reply.type ≠ .INTEGER ∨ reply.integer ≤ 0)

def LPush (key value : Bytes) : RedisProgram κ Bool := pushCommand "LPUSH" key value

def RPush (key value : Bytes) : RedisProgram κ Bool := pushCommand "RPUSH" key value

def popCommand (command : String) (key value : Bytes) : RedisProgram κ (Bool × Bytes) :=
  execute [ascii command, c_str key] (false, value) fun reply => do
    if reply.type = .NIL then
      return (false, value)
    return (true, ← replyText reply)

def LPop (key value : Bytes) : RedisProgram κ (Bool × Bytes) := popCommand "LPOP" key value

def RPop (key value : Bytes) : RedisProgram κ (Bool × Bytes) := popCommand "RPOP" key value

/-- `HSet(const std::string&, const std::string&, const std::string&)`. -/
def HSet (key hkey value : Bytes) : RedisProgram κ Bool :=
  execute [ascii "HSET", c_str key, c_str hkey, c_str value] false fun reply =>
    return reply.type = .INTEGER

/-- `HSet(const char*, const char*, const char*, size_t)`. -/
def HSetLen (key hkey hvalue : Bytes) (hvaluelen : Nat) : RedisProgram κ Bool :=
  execute [ascii "HSET", c_str key, c_str hkey, hvalue.take hvaluelen] false fun reply =>
    return reply.type = .INTEGER

def HGet (key hkey : Bytes) : RedisProgram κ Bytes :=
  execute [ascii "HGET", key, hkey] [] fun reply => do
    if reply.type = .NIL then
      return []
    replyText reply

def Del (key : Bytes) : RedisProgram κ Bool :=
  execute [ascii "DEL", c_str key] false fun reply =>
    return reply.type = .INTEGER

def ExistsKey (key : Bytes) : RedisProgram κ Bool :=
  execute [ascii "exists", c_str key] false fun reply =>
    return ¬ (reply.type ≠ .INTEGER ∨ reply.integer = 0)

end RedisMgr

/-! ### Against a store -/

def RedisMgr.serveCommand : (effect : RedisEffect Unit) → StateT Redis Option effect.Reply
  | .redisCommand _ argv => fun db => some (some (db.exec argv).1, (db.exec argv).2)
  | .nullRead => fun _ => none

/-- Here every `getConnection` is given a connection at once. That there is one is a matter of its own:
no operation gives back what it takes. -/
def RedisMgr.serve : (effect : PoolEffect (Option Unit) (RedisEffect Unit)) →
    StateT Redis Option (effect.Answer (@RedisEffect.Reply Unit))
  | .getConnection => pure (some ())
  | .returnConnection _ => pure ⟨⟩
  | .other effect => RedisMgr.serveCommand effect

/-- What an operation that gets its connections returns and leaves in the store; none when it reads
through a null pointer. -/
def RedisMgr.run {α : Type} (program : RedisProgram Unit α) (db : Redis) : Option (α × Redis) :=
  (program.interp RedisMgr.serve).run db

/-! ### Over the pool -/

/-- The constructor makes `con_pool_` with so many contexts. -/
def RedisMgr.poolSize : Nat := 5

def RedisConPool.idle (contexts : Nat) : ConPool Unit := ConPool.new (List.replicate contexts ())

/-- One caller with the contexts that the pool has for it. Where `getConnection` has it wait, it goes
no further: no operation puts a context back. -/
def RedisMgr.serveOver {σ : Type} (commands : (effect : RedisEffect Unit) → StateT σ Option effect.Reply) :
    (effect : PoolEffect (Option Unit) (RedisEffect Unit)) →
      StateT (ConPool Unit × σ) Option (effect.Answer (@RedisEffect.Reply Unit))
  | .getConnection => fun state =>
      (state.1.getConnection RedisConPool.predicate).map fun result => (result.1, result.2, state.2)
  | .returnConnection connect => fun state =>
      some (⟨⟩, connect.elim state.1 state.1.returnConnection, state.2)
  | .other effect => fun state =>
      (commands effect state.2).map fun result => (result.1, state.1, result.2)

/-- What an operation returns, and leaves of the pool and in the store; none when it waits for a
context or reads through a null pointer. -/
def RedisMgr.runOver {α : Type} (pool : ConPool Unit) (program : RedisProgram Unit α) (db : Redis) :
    Option (α × ConPool Unit × Redis) :=
  (program.interp (RedisMgr.serveOver RedisMgr.serveCommand)).run (pool, db)

def RedisMgr.answerWith (replies : Nat → Option redisReply) :
    (effect : RedisEffect Unit) → StateT Nat Option effect.Reply
  | .redisCommand _ _ => fun sent => some (replies sent, sent + 1)
  | .nullRead => fun _ => none

def RedisMgr.runReplies {α : Type} (replies : Nat → Option redisReply) (program : RedisProgram Unit α) :
    ConPool Unit × Nat → Option (α × ConPool Unit × Nat) :=
  (program.interp (RedisMgr.serveOver (RedisMgr.answerWith replies))).run

/-! ### Over a link -/

/-- What becomes of the commands on a connection: Redis executes some of them, and the replies to
some of those come back. -/
structure RedisLink where
  executes : List Bytes → Bool
  answers : List Bytes → Bool

def RedisMgr.serveThrough (link : RedisLink) :
    (effect : PoolEffect (Option Unit) (RedisEffect Unit)) →
      StateT Redis Option (effect.Answer (@RedisEffect.Reply Unit))
  | .getConnection => pure (some ())
  | .returnConnection _ => pure ⟨⟩
  | .other (.redisCommand _ argv) => fun db =>
      if link.executes argv then
        some (if link.answers argv then some (db.exec argv).1 else none, (db.exec argv).2)
      else some (none, db)
  | .other .nullRead => fun _ => none

def RedisMgr.runThrough {α : Type} (link : RedisLink) (program : RedisProgram Unit α) (db : Redis) :
    Option (α × Redis) :=
  (program.interp (RedisMgr.serveThrough link)).run db

/-! ### Every operation -/

inductive RedisOp where
  | Get (key value : Bytes)
  | Set (key value : Bytes)
  | Auth (password : Bytes)
  | LPush (key value : Bytes)
  | LPop (key value : Bytes)
  | RPush (key value : Bytes)
  | RPop (key value : Bytes)
  | HSet (key hkey value : Bytes)
  | HSetLen (key hkey hvalue : Bytes) (hvaluelen : Nat)
  | HGet (key hkey : Bytes)
  | Del (key : Bytes)
  | ExistsKey (key : Bytes)

def RedisOp.program {κ : Type} : RedisOp → RedisProgram κ Unit
  | Get key value => discard (RedisMgr.Get key value)
  | Set key value => discard (RedisMgr.Set key value)
  | Auth password => discard (RedisMgr.Auth password)
  | LPush key value => discard (RedisMgr.LPush key value)
  | LPop key value => discard (RedisMgr.LPop key value)
  | RPush key value => discard (RedisMgr.RPush key value)
  | RPop key value => discard (RedisMgr.RPop key value)
  | HSet key hkey value => discard (RedisMgr.HSet key hkey value)
  | HSetLen key hkey hvalue hvaluelen => discard (RedisMgr.HSetLen key hkey hvalue hvaluelen)
  | HGet key hkey => discard (RedisMgr.HGet key hkey)
  | Del key => discard (RedisMgr.Del key)
  | ExistsKey key => discard (RedisMgr.ExistsKey key)

end QuickChat
