import QuickChat.Lib.Text

/-!
# The store

Redis as the servers use it: a map from keys, which are any bytes, to strings, lists and hashes, some
of them with a time after which they are gone. A command is a list of arguments whose first is its
name, in any case, and the reply has the fields that hiredis gives it.
-/

namespace QuickChat

inductive ReplyType where
  | STRING
  | ARRAY
  | INTEGER
  | NIL
  | STATUS
  | ERROR
  deriving DecidableEq, Repr

/-- A `redisReply`; `str` is null where the reply has no text. -/
structure redisReply where
  type : ReplyType
  integer : Int
  str : Option Bytes
  deriving DecidableEq, Repr

namespace redisReply

def ofString (s : Bytes) : redisReply := ⟨.STRING, 0, some s⟩
def ofInteger (n : Int) : redisReply := ⟨.INTEGER, n, none⟩
def nil : redisReply := ⟨.NIL, 0, none⟩
def status (s : String) : redisReply := ⟨.STATUS, 0, some (Text.ascii s)⟩
def error (s : String) : redisReply := ⟨.ERROR, 0, some (Text.ascii s)⟩

end redisReply

inductive RedisValue where
  | string (s : Bytes)
  | list (xs : List Bytes)
  | hash (fields : Bytes → Option Bytes)

/-- The time, in seconds, and the entries with the times from which they are gone. -/
structure Redis where
  now : Nat
  entries : Bytes → Option (RedisValue × Option Nat)

namespace Redis

def init : Redis := ⟨0, fun _ => none⟩

def lookup (db : Redis) (key : Bytes) : Option RedisValue :=
  match db.entries key with
  | none => none
  | some (value, none) => some value
  | some (value, some expireAt) => if db.now < expireAt then some value else none

def put (db : Redis) (key : Bytes) (entry : Option (RedisValue × Option Nat)) : Redis :=
  { db with entries := Function.update db.entries key entry }

def upper (name : Bytes) : Bytes := name.map fun b => if 97 ≤ b ∧ b ≤ 122 then b - 32 else b

def wrongType : redisReply :=
  .error "WRONGTYPE Operation against a key holding the wrong kind of value"

/-- The expiry that a key has now, which a command that changes its value in place keeps. -/
def expiry (db : Redis) (key : Bytes) : Option Nat := (db.entries key).bind Prod.snd

/-- `LPUSH` and `RPUSH`, by what they make of the list. -/
def push (db : Redis) (key : Bytes) (onList : List Bytes → List Bytes) : redisReply × Redis :=
  match db.lookup key with
  | none => (.ofInteger (onList []).length, db.put key (some (.list (onList []), none)))
  | some (.list xs) =>
      (.ofInteger (onList xs).length, db.put key (some (.list (onList xs), db.expiry key)))
  | some _ => (wrongType, db)

/-- `LPOP` and `RPOP`, by the element they take and what they leave. -/
def pop (db : Redis) (key : Bytes) (onList : List Bytes → Option (Bytes × List Bytes)) :
    redisReply × Redis :=
  match db.lookup key with
  | none => (.nil, db)
  | some (.list xs) =>
      match onList xs with
      | none => (.nil, db)
      | some (x, []) => (.ofString x, db.put key none)
      | some (x, rest) => (.ofString x, db.put key (some (.list rest, db.expiry key)))
  | some _ => (wrongType, db)

def unconsHead : List Bytes → Option (Bytes × List Bytes)
  | [] => none
  | x :: xs => some (x, xs)

def unconsLast (xs : List Bytes) : Option (Bytes × List Bytes) :=
  xs.getLast?.map fun x => (x, xs.dropLast)

def get (db : Redis) (key : Bytes) : redisReply × Redis :=
  match db.lookup key with
  | none => (.nil, db)
  | some (.string s) => (.ofString s, db)
  | some _ => (wrongType, db)

def set (db : Redis) (key value : Bytes) : redisReply × Redis :=
  (.status "OK", db.put key (some (.string value, none)))

def setex (db : Redis) (key : Bytes) (seconds : Bytes) (value : Bytes) : redisReply × Redis :=
  match Text.stoi seconds with
  | .error _ => (.error "ERR value is not an integer or out of range", db)
  | .ok n =>
      if 0 < n then (.status "OK", db.put key (some (.string value, some (db.now + n.toNat))))
      else (.error "ERR invalid expire time in 'setex' command", db)

def hget (db : Redis) (key field : Bytes) : redisReply × Redis :=
  match db.lookup key with
  | none => (.nil, db)
  | some (.hash fields) =>
      match fields field with
      | none => (.nil, db)
      | some value => (.ofString value, db)
  | some _ => (wrongType, db)

def hset (db : Redis) (key field value : Bytes) : redisReply × Redis :=
  match db.lookup key with
  | none =>
      (.ofInteger 1,
        db.put key (some (.hash (Function.update (fun _ => none) field (some value)), none)))
  | some (.hash fields) =>
      (.ofInteger (if (fields field).isSome then 0 else 1),
        db.put key (some (.hash (Function.update fields field (some value)), db.expiry key)))
  | some _ => (wrongType, db)

def del (db : Redis) (key : Bytes) : redisReply × Redis :=
  (.ofInteger (if (db.lookup key).isSome then 1 else 0), db.put key none)

def existsKey (db : Redis) (key : Bytes) : redisReply × Redis :=
  (.ofInteger (if (db.lookup key).isSome then 1 else 0), db)

def exec (db : Redis) : List Bytes → redisReply × Redis
  | [] => (.error "ERR empty command", db)
  | name :: args =>
      match (upper name).map Char.ofUInt8 |> String.ofList, args with
      | "GET", [key] => db.get key
      | "SET", [key, value] => db.set key value
      | "SETEX", [key, seconds, value] => db.setex key seconds value
      | "LPUSH", [key, value] => db.push key (value :: ·)
      | "RPUSH", [key, value] => db.push key (· ++ [value])
      | "LPOP", [key] => db.pop key unconsHead
      | "RPOP", [key] => db.pop key unconsLast
      | "HGET", [key, field] => db.hget key field
      | "HSET", [key, field, value] => db.hset key field value
      | "DEL", [key] => db.del key
      | "EXISTS", [key] => db.existsKey key
      | _, _ => (.error "ERR unknown command or wrong number of arguments", db)

end Redis

end QuickChat
