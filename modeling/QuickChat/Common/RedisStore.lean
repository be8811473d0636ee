import QuickChat.Common.RedisMgr
import QuickChat.Lib.Machine

/-!
# RedisMgr as a store

A run of operations, each of which is successful: Redis neither refuses its command nor has nothing to
return. The results are kept.

The operations are there to be those of a store over bytes. An operation of such a store acts on one
key, by what is under it, and keys, fields and values may be any bytes.
-/

namespace QuickChat

open Text

/-- What an operation returns: a flag, a flag and the out parameter, or a string. -/
inductive RedisResult where
  | done (ok : Bool)
  | read (ok : Bool) (value : Bytes)
  | text (value : Bytes)
  deriving DecidableEq, Repr

namespace RedisOp

def result {κ : Type} : RedisOp → RedisProgram κ RedisResult
  | Get key value => do
      let (ok, value) ← RedisMgr.Get key value
      return .read ok value
  | Set key value => return .done (← RedisMgr.Set key value)
  | Auth password => return .done (← RedisMgr.Auth password)
  | LPush key value => return .done (← RedisMgr.LPush key value)
  | LPop key value => do
      let (ok, value) ← RedisMgr.LPop key value
      return .read ok value
  | RPush key value => return .done (← RedisMgr.RPush key value)
  | RPop key value => do
      let (ok, value) ← RedisMgr.RPop key value
      return .read ok value
  | HSet key hkey value => return .done (← RedisMgr.HSet key hkey value)
  | HSetLen key hkey hvalue hvaluelen => return .done (← RedisMgr.HSetLen key hkey hvalue hvaluelen)
  | HGet key hkey => return .text (← RedisMgr.HGet key hkey)
  | Del key => return .done (← RedisMgr.Del key)
  | ExistsKey key => return .done (← RedisMgr.ExistsKey key)

def sent : RedisOp → RedisOp
  | Get key value => Get (c_str key) value
  | Set key value => Set (c_str key) (c_str value)
  | Auth password => Auth (c_str password)
  | LPush key value => LPush (c_str key) (c_str value)
  | LPop key value => LPop (c_str key) value
  | RPush key value => RPush (c_str key) (c_str value)
  | RPop key value => RPop (c_str key) value
  | HSet key hkey value => HSet (c_str key) (c_str hkey) (c_str value)
  | HSetLen key hkey hvalue hvaluelen => HSetLen (c_str key) (c_str hkey) hvalue hvaluelen
  | HGet key hkey => HGet key hkey
  | Del key => Del (c_str key)
  | ExistsKey key => ExistsKey (c_str key)

def argv : RedisOp → List Bytes
  | Get key _ => [ascii "GET", key]
  | Set key value => [ascii "SET", key, value]
  | Auth password => [ascii "AUTH", password]
  | LPush key value => [ascii "LPUSH", key, value]
  | LPop key _ => [ascii "LPOP", key]
  | RPush key value => [ascii "RPUSH", key, value]
  | RPop key _ => [ascii "RPOP", key]
  | HSet key hkey value => [ascii "HSET", key, hkey, value]
  | HSetLen key hkey hvalue hvaluelen => [ascii "HSET", key, hkey, hvalue.take hvaluelen]
  | HGet key hkey => [ascii "HGET", key, hkey]
  | Del key => [ascii "DEL", key]
  | ExistsKey key => [ascii "exists", key]

/-- The reply to the command is neither an error nor nil. -/
def Succeeds (op : RedisOp) (db : Redis) : Prop :=
  (db.exec op.sent.argv).1.type ≠ .ERROR ∧ (db.exec op.sent.argv).1.type ≠ .NIL

instance (op : RedisOp) (db : Redis) : Decidable (op.Succeeds db) :=
  inferInstanceAs (Decidable (_ ∧ _))

end RedisOp

structure StoreRun where
  redis : Redis
  results : List RedisResult

def StoreRun.step (state : StoreRun) (op : RedisOp) : Option StoreRun :=
  if op.Succeeds state.redis then
    (RedisMgr.run op.result state.redis).map fun (result, redis) =>
      ⟨redis, state.results ++ [result]⟩
  else none

/-! ### A store over bytes -/

abbrev ByteStore := Bytes → Option RedisValue

namespace RedisOp

def key : RedisOp → Bytes
  | Get key _ => key
  | Set key _ => key
  | Auth _ => []
  | LPush key _ => key
  | LPop key _ => key
  | RPush key _ => key
  | RPop key _ => key
  | HSet key _ _ => key
  | HSetLen key _ _ _ => key
  | HGet key _ => key
  | Del key => key
  | ExistsKey key => key

def ofList : List Bytes → Option RedisValue
  | [] => none
  | x :: xs => some (.list (x :: xs))

/-- What the operation returns and leaves for what it finds under its key; none when it has nothing
to return. `Auth` is no operation of a store. -/
def onValue : RedisOp → Option RedisValue → Option (RedisResult × Option RedisValue)
  | Get _ _, some (.string s) => some (.read true s, some (.string s))
  | Set _ value, _ => some (.done true, some (.string value))
  | LPush _ value, none => some (.done true, some (.list [value]))
  | LPush _ value, some (.list xs) => some (.done true, some (.list (value :: xs)))
  | RPush _ value, none => some (.done true, some (.list [value]))
  | RPush _ value, some (.list xs) => some (.done true, some (.list (xs ++ [value])))
  | LPop _ _, some (.list xs) =>
      (Redis.unconsHead xs).map fun (x, rest) => (.read true x, ofList rest)
  | RPop _ _, some (.list xs) =>
      (Redis.unconsLast xs).map fun (x, rest) => (.read true x, ofList rest)
  | HSet _ hkey value, none =>
      some (.done true, some (.hash (Function.update (fun _ => none) hkey (some value))))
  | HSet _ hkey value, some (.hash fields) =>
      some (.done true, some (.hash (Function.update fields hkey (some value))))
  | HSetLen _ hkey hvalue hvaluelen, none =>
      some (.done true,
        some (.hash (Function.update (fun _ => none) hkey (some (hvalue.take hvaluelen)))))
  | HSetLen _ hkey hvalue hvaluelen, some (.hash fields) =>
      some (.done true,
        some (.hash (Function.update fields hkey (some (hvalue.take hvaluelen)))))
  | HGet _ hkey, some (.hash fields) =>
      (fields hkey).map fun value => (.text value, some (.hash fields))
  | Del _, _ => some (.done true, none)
  | ExistsKey _, value => some (.done value.isSome, value)
  | _, _ => none

end RedisOp

namespace ByteStore

def apply (store : ByteStore) (op : RedisOp) : Option (RedisResult × ByteStore) :=
  (op.onValue (store op.key)).map fun (result, value) =>
    (result, Function.update store op.key value)

def run : ByteStore → List RedisOp → Option (List RedisResult × ByteStore)
  | store, [] => some ([], store)
  | store, op :: ops =>
      (store.apply op).bind fun (result, store) =>
        (run store ops).map fun (results, store) => (result :: results, store)

end ByteStore

end QuickChat
