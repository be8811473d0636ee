import QuickChat.Common.RedisStore
import QuickChat.Proof.RedisMgr

/-!
# What an operation of RedisMgr does

A command finds something under its key and leaves something there, and changes nothing else. So a
successful operation does to Redis what the store does for the arguments that Redis gets, and gives
the text of the result up to its first NUL.
-/

namespace QuickChat

open Text

namespace Redis

variable {db : Redis} {key : Bytes} {stored : RedisValue}

theorem lookup_put {entry : Option (RedisValue × Option Nat)} {value : Option RedisValue}
    (hvalue : (db.put key entry).lookup key = value) :
    (db.put key entry).lookup = Function.update db.lookup key value := by
  funext other
  by_cases hother : other = key
  · rw [hother, Function.update_self, hvalue]
  · rw [Function.update_of_ne hother, lookup_put_of_ne hother]

theorem lookup_put_none (db : Redis) (key : Bytes) : (db.put key none).lookup key = none := by
  simp [lookup, put]

theorem lookup_put_expiry (hlookup : db.lookup key = some stored) (value : RedisValue) :
    (db.put key (some (value, db.expiry key))).lookup key = some value := by
  rw [lookup] at hlookup
  cases hentry : db.entries key with
  | none => simp [hentry] at hlookup
  | some entry =>
      obtain ⟨old, expireAt⟩ := entry
      cases expireAt with
      | none => simp [lookup, put, expiry, hentry]
      | some time =>
          simp only [hentry, Option.ite_none_right_eq_some] at hlookup
          simp [lookup, put, expiry, hentry, hlookup.1]

end Redis

def RedisResult.cut : RedisResult → RedisResult
  | done ok => done ok
  | read ok value => read ok (c_str value)
  | text value => text (c_str value)

namespace Redis

variable {db : Redis} {key : Bytes}

/-- What a command has found under its key, and what it leaves there. -/
structure Leaves (db : Redis) (key : Bytes) (found value : Option RedisValue) (next : Redis) :
    Prop where
  found : db.lookup key = found
  left : next.lookup = Function.update db.lookup key value

theorem leaves_self {value : Option RedisValue} (hlookup : db.lookup key = value) :
    Leaves db key value value db :=
  ⟨hlookup, by rw [← hlookup, Function.update_eq_self]⟩

theorem leaves_put {found : Option RedisValue} {value : RedisValue} (hlookup : db.lookup key = found) :
    Leaves db key found (some value) (db.put key (some (value, none))) :=
  ⟨hlookup, lookup_put (lookup_put_self _ _ _)⟩

theorem leaves_keep {found value : RedisValue} (hlookup : db.lookup key = some found) :
    Leaves db key (some found) (some value) (db.put key (some (value, db.expiry key))) :=
  ⟨hlookup, lookup_put (lookup_put_expiry hlookup _)⟩

theorem leaves_none {found : Option RedisValue} (hlookup : db.lookup key = found) :
    Leaves db key found none (db.put key none) :=
  ⟨hlookup, lookup_put (lookup_put_none _ _)⟩

/-- A push that succeeds leaves a list, and its length is the reply. -/
theorem push_cases {onList : List Bytes → List Bytes}
    (hreply : (db.push key onList).1.type ≠ .ERROR) :
    ∃ value, (db.push key onList).1 = redisReply.ofInteger value.length ∧
      (value = onList [] ∧ Leaves db key none (some (.list value)) (db.push key onList).2 ∨
        ∃ xs, value = onList xs ∧
          Leaves db key (some (.list xs)) (some (.list value)) (db.push key onList).2) := by
  rw [push] at hreply ⊢
  cases hlookup : db.lookup key with
  | none => exact ⟨_, rfl, .inl ⟨rfl, leaves_put hlookup⟩⟩
  | some stored =>
      cases stored with
      | string s => simp [hlookup, wrongType, redisReply.error] at hreply
      | list xs => exact ⟨_, rfl, .inr ⟨xs, rfl, leaves_keep hlookup⟩⟩
      | hash fields => simp [hlookup, wrongType, redisReply.error] at hreply

/-- A pop that succeeds has found a list with an element to take. -/
theorem pop_cases {onList : List Bytes → Option (Bytes × List Bytes)}
    (herror : (db.pop key onList).1.type ≠ .ERROR) (hnil : (db.pop key onList).1.type ≠ .NIL) :
    ∃ xs x rest, onList xs = some (x, rest) ∧ (db.pop key onList).1 = redisReply.ofString x ∧
      Leaves db key (some (.list xs)) (RedisOp.ofList rest) (db.pop key onList).2 := by
  rw [pop] at herror hnil ⊢
  cases hlookup : db.lookup key with
  | none => simp [hlookup, redisReply.nil] at hnil
  | some stored =>
      cases stored with
      | string s => simp [hlookup, wrongType, redisReply.error] at herror
      | hash fields => simp [hlookup, wrongType, redisReply.error] at herror
      | list xs =>
          cases hlist : onList xs with
          | none => simp [hlookup, hlist, redisReply.nil] at hnil
          | some taken =>
              obtain ⟨x, rest⟩ := taken
              refine ⟨xs, x, rest, hlist, ?_, ?_⟩
              · cases rest <;> simp [hlist]
              · cases rest with
                | nil => simpa [hlist, RedisOp.ofList] using leaves_none hlookup
                | cons y ys => simpa [hlist, RedisOp.ofList] using leaves_keep hlookup

theorem hset_cases {field value : Bytes} (hreply : (db.hset key field value).1.type ≠ .ERROR) :
    (db.hset key field value).1.type = .INTEGER ∧
      (Leaves db key none (some (.hash (Function.update (fun _ => none) field (some value))))
          (db.hset key field value).2 ∨
        ∃ fields, Leaves db key (some (.hash fields))
          (some (.hash (Function.update fields field (some value)))) (db.hset key field value).2) := by
  rw [hset] at hreply ⊢
  cases hlookup : db.lookup key with
  | none => exact ⟨rfl, .inl (leaves_put hlookup)⟩
  | some stored =>
      cases stored with
      | string s => simp [hlookup, wrongType, redisReply.error] at hreply
      | list xs => simp [hlookup, wrongType, redisReply.error] at hreply
      | hash fields => exact ⟨rfl, .inr ⟨fields, leaves_keep hlookup⟩⟩

theorem hget_cases {field : Bytes} (herror : (db.hget key field).1.type ≠ .ERROR)
    (hnil : (db.hget key field).1.type ≠ .NIL) :
    ∃ fields value, fields field = some value ∧ db.lookup key = some (.hash fields) := by
  rw [hget] at herror hnil
  cases hlookup : db.lookup key with
  | none => simp [hlookup, redisReply.nil] at hnil
  | some stored =>
      cases stored with
      | string s => simp [hlookup, wrongType, redisReply.error] at herror
      | list xs => simp [hlookup, wrongType, redisReply.error] at herror
      | hash fields =>
          cases hfield : fields field with
          | none => simp [hlookup, hfield, redisReply.nil] at hnil
          | some value => exact ⟨fields, value, hfield, rfl⟩

theorem get_cases (herror : (db.get key).1.type ≠ .ERROR) (hnil : (db.get key).1.type ≠ .NIL) :
    ∃ s, db.lookup key = some (.string s) := by
  rw [get] at herror hnil
  cases hlookup : db.lookup key with
  | none => simp [hlookup, redisReply.nil] at hnil
  | some stored =>
      cases stored with
      | string s => exact ⟨s, rfl⟩
      | list xs => simp [hlookup, wrongType, redisReply.error] at herror
      | hash fields => simp [hlookup, wrongType, redisReply.error] at herror

end Redis

namespace RedisMgr

variable (db : Redis)

theorem run_pushCommand {command : String} {key value : Bytes} {onList : List Bytes → List Bytes}
    (hexec : db.exec [ascii command, c_str key, c_str value] = db.push (c_str key) onList)
    (hreply : (db.push (c_str key) onList).1.type ≠ .ERROR) (hlength : ∀ xs, onList xs ≠ []) :
    ∃ next, run (pushCommand command key value) db = some (true, next) ∧
      (Redis.Leaves db (c_str key) none (some (.list (onList []))) next ∨
        ∃ xs, Redis.Leaves db (c_str key) (some (.list xs)) (some (.list (onList xs))) next) := by
  obtain ⟨pushed, hinteger, hleaves⟩ := Redis.push_cases hreply
  have hpositive : 0 < pushed.length := by
    rcases hleaves with ⟨rfl, -⟩ | ⟨xs, rfl, -⟩
    · exact List.length_pos_of_ne_nil (hlength [])
    · exact List.length_pos_of_ne_nil (hlength xs)
  refine ⟨(db.push (c_str key) onList).2, ?_, ?_⟩
  · rw [pushCommand, run_execute, hexec, hinteger]
    simp [redisReply.ofInteger, List.ne_nil_of_length_pos hpositive]
  · rcases hleaves with ⟨rfl, hleaves⟩ | ⟨xs, rfl, hleaves⟩
    · exact .inl hleaves
    · exact .inr ⟨xs, hleaves⟩

theorem run_popCommand {command : String} {key x : Bytes} (value : Bytes) {next : Redis}
    (hexec : db.exec [ascii command, c_str key] = (redisReply.ofString x, next)) :
    run (popCommand command key value) db = some ((true, c_str x), next) := by
  rw [popCommand, run_execute, hexec]
  rfl

theorem run_HSet (key hkey value : Bytes) :
    run (HSet key hkey value) db =
      some (decide ((db.hset (c_str key) (c_str hkey) (c_str value)).1.type = .INTEGER),
        (db.hset (c_str key) (c_str hkey) (c_str value)).2) := rfl

theorem run_HSetLen (key hkey hvalue : Bytes) (hvaluelen : Nat) :
    run (HSetLen key hkey hvalue hvaluelen) db =
      some (decide ((db.hset (c_str key) (c_str hkey) (hvalue.take hvaluelen)).1.type = .INTEGER),
        (db.hset (c_str key) (c_str hkey) (hvalue.take hvaluelen)).2) := rfl

end RedisMgr

namespace RedisOp

variable {op : RedisOp} {db : Redis}

/-- The operation on the store is that of the byte store for the arguments that Redis gets. -/
structure Acts (op : RedisOp) (db : Redis) (result : RedisResult) (value : Option RedisValue)
    (next : Redis) : Prop where
  onValue : op.sent.onValue (db.lookup op.sent.key) = some (result, value)
  run : RedisMgr.run op.result db = some (result.cut, next)
  lookup : next.lookup = Function.update db.lookup op.sent.key value

theorem acts_of_leaves {key : Bytes} {result : RedisResult} {found value : Option RedisValue}
    {next : Redis} (hkey : op.sent.key = key) (hleaves : Redis.Leaves db key found value next)
    (honValue : op.sent.onValue found = some (result, value))
    (hrun : RedisMgr.run op.result db = some (result.cut, next)) :
    ∃ result value next, Acts op db result value next := by
  subst hkey
  exact ⟨result, value, next, hleaves.found ▸ honValue, hrun, hleaves.left⟩

theorem acts_Get {key value : Bytes} (hsucceeds : (Get key value).Succeeds db) :
    ∃ result stored next, Acts (Get key value) db result stored next := by
  have hexec : db.exec (Get key value).sent.argv = db.get (c_str key) := rfl
  rw [Succeeds, hexec] at hsucceeds
  obtain ⟨s, hlookup⟩ := Redis.get_cases hsucceeds.1 hsucceeds.2
  have htext : db.text key = some (c_str s) := by rw [Redis.text, hlookup]
  have hrun : RedisMgr.run (Get key value).result db = some ((RedisResult.read true s).cut, db) := by
    simp [RedisOp.result, RedisMgr.run_Get, htext, RedisResult.cut]
  exact acts_of_leaves rfl (Redis.leaves_self hlookup) rfl hrun

theorem acts_Set {key value : Bytes} :
    ∃ result stored next, Acts (Set key value) db result stored next := by
  have hrun : RedisMgr.run (Set key value).result db
      = some ((RedisResult.done true).cut, db.put (c_str key) (some (.string (c_str value), none))) := by
    rw [RedisOp.result, RedisMgr.run_bind, RedisMgr.run_Set]
    rfl
  exact acts_of_leaves rfl (Redis.leaves_put rfl) rfl hrun

/-- The two pushes differ in the end of the list that they push to. -/
theorem acts_push {op : RedisOp} {command : String} {key value : Bytes}
    (onList : List Bytes → List Bytes) (hkey : op.sent.key = c_str key)
    (hnone : op.sent.onValue none = some (.done true, some (.list (onList []))))
    (hlist : ∀ xs, op.sent.onValue (some (.list xs)) = some (.done true, some (.list (onList xs))))
    (hresult : op.result = (RedisMgr.pushCommand command key value >>= fun ok =>
      pure (.done ok) : RedisProgram Unit RedisResult))
    (hexec : db.exec [ascii command, c_str key, c_str value] = db.push (c_str key) onList)
    (herror : (db.push (c_str key) onList).1.type ≠ .ERROR) (hlength : ∀ xs, onList xs ≠ []) :
    ∃ result stored next, Acts op db result stored next := by
  obtain ⟨next, hpush, hleaves⟩ := RedisMgr.run_pushCommand db hexec herror hlength
  have hrun : RedisMgr.run op.result db = some ((RedisResult.done true).cut, next) := by
    rw [hresult, RedisMgr.run_bind, hpush]
    rfl
  rcases hleaves with hleaves | ⟨xs, hleaves⟩
  · exact acts_of_leaves hkey hleaves hnone hrun
  · exact acts_of_leaves hkey hleaves (hlist xs) hrun

theorem acts_LPush {key value : Bytes} (hsucceeds : (LPush key value).Succeeds db) :
    ∃ result stored next, Acts (LPush key value) db result stored next :=
  acts_push (c_str value :: ·) rfl rfl (fun _ => rfl) rfl rfl hsucceeds.1 (by simp)

theorem acts_RPush {key value : Bytes} (hsucceeds : (RPush key value).Succeeds db) :
    ∃ result stored next, Acts (RPush key value) db result stored next :=
  acts_push (· ++ [c_str value]) rfl rfl (fun _ => rfl) rfl rfl hsucceeds.1 (by simp)

theorem acts_pop {op : RedisOp} {command : String} {key value : Bytes}
    {onList : List Bytes → Option (Bytes × List Bytes)}
    (hkey : op.sent.key = c_str key)
    (honValue : ∀ xs, op.sent.onValue (some (.list xs)) =
      (onList xs).map fun (x, rest) => (.read true x, ofList rest))
    (hresult : op.result = (RedisMgr.popCommand command key value >>= fun (ok, value) =>
      pure (.read ok value) : RedisProgram Unit RedisResult))
    (hexec : db.exec [ascii command, c_str key] = db.pop (c_str key) onList)
    (herror : (db.pop (c_str key) onList).1.type ≠ .ERROR)
    (hnil : (db.pop (c_str key) onList).1.type ≠ .NIL) :
    ∃ result stored next, Acts op db result stored next := by
  obtain ⟨xs, x, rest, hlist, hreply, hleaves⟩ := Redis.pop_cases herror hnil
  have hpop : db.exec [ascii command, c_str key]
      = (redisReply.ofString x, (db.pop (c_str key) onList).2) := by rw [hexec, ← hreply]
  refine acts_of_leaves hkey hleaves ((honValue xs).trans (by rw [hlist]; rfl)) ?_
  rw [hresult, RedisMgr.run_bind, RedisMgr.run_popCommand db value hpop]
  rfl

theorem acts_LPop {key value : Bytes} (hsucceeds : (LPop key value).Succeeds db) :
    ∃ result stored next, Acts (LPop key value) db result stored next :=
  acts_pop rfl (fun _ => rfl) rfl rfl hsucceeds.1 hsucceeds.2

theorem acts_RPop {key value : Bytes} (hsucceeds : (RPop key value).Succeeds db) :
    ∃ result stored next, Acts (RPop key value) db result stored next :=
  acts_pop rfl (fun _ => rfl) rfl rfl hsucceeds.1 hsucceeds.2

/-- The two overloads differ in how much of the value they send. -/
theorem acts_hset {op : RedisOp} {key field text : Bytes} (hkey : op.sent.key = key)
    (hnone : op.sent.onValue none =
      some (.done true, some (.hash (Function.update (fun _ => none) field (some text)))))
    (hhash : ∀ fields, op.sent.onValue (some (.hash fields)) =
      some (.done true, some (.hash (Function.update fields field (some text)))))
    (hrun : RedisMgr.run op.result db =
      some (.done (decide ((db.hset key field text).1.type = .INTEGER)), (db.hset key field text).2))
    (herror : (db.hset key field text).1.type ≠ .ERROR) :
    ∃ result stored next, Acts op db result stored next := by
  obtain ⟨htype, hleaves⟩ := Redis.hset_cases herror
  rw [decide_eq_true htype] at hrun
  rcases hleaves with hleaves | ⟨fields, hleaves⟩
  · exact acts_of_leaves hkey hleaves hnone hrun
  · exact acts_of_leaves hkey hleaves (hhash fields) hrun

theorem acts_HSet {key hkey value : Bytes} (hsucceeds : (HSet key hkey value).Succeeds db) :
    ∃ result stored next, Acts (HSet key hkey value) db result stored next :=
  acts_hset rfl rfl (fun _ => rfl) rfl hsucceeds.1

theorem acts_HSetLen {key hkey hvalue : Bytes} {hvaluelen : Nat}
    (hsucceeds : (HSetLen key hkey hvalue hvaluelen).Succeeds db) :
    ∃ result stored next, Acts (HSetLen key hkey hvalue hvaluelen) db result stored next :=
  acts_hset rfl rfl (fun _ => rfl) rfl hsucceeds.1

theorem acts_HGet {key hkey : Bytes} (hsucceeds : (HGet key hkey).Succeeds db) :
    ∃ result stored next, Acts (HGet key hkey) db result stored next := by
  have herror : (db.hget key hkey).1.type ≠ .ERROR := hsucceeds.1
  obtain ⟨fields, value, hfield, hlookup⟩ := Redis.hget_cases herror hsucceeds.2
  have honValue : (HGet key hkey).sent.onValue (some (.hash fields))
      = some (.text value, some (.hash fields)) := by
    simp [sent, RedisOp.onValue, hfield]
  have hrun : RedisMgr.run (HGet key hkey).result db
      = some ((RedisResult.text value).cut, db) := by
    simp [RedisOp.result, RedisMgr.run_HGet, Redis.hashText, hlookup, hfield, RedisResult.cut]
  exact acts_of_leaves rfl (Redis.leaves_self hlookup) honValue hrun

theorem acts_Del {key : Bytes} : ∃ result stored next, Acts (Del key) db result stored next := by
  have hrun : RedisMgr.run (Del key).result db
      = some ((RedisResult.done true).cut, db.put (c_str key) none) := rfl
  exact acts_of_leaves rfl (Redis.leaves_none rfl) rfl hrun

theorem acts_ExistsKey {key : Bytes} :
    ∃ result stored next, Acts (ExistsKey key) db result stored next := by
  have hexec : db.exec [ascii "exists", c_str key] = db.existsKey (c_str key) := rfl
  have hrun : RedisMgr.run (ExistsKey key).result db
      = some ((RedisResult.done (db.lookup (c_str key)).isSome).cut, db) := by
    simp only [RedisOp.result, RedisMgr.run_bind, RedisMgr.ExistsKey, RedisMgr.run_execute, hexec,
      Redis.existsKey]
    cases db.lookup (c_str key) <;> rfl
  exact acts_of_leaves rfl (Redis.leaves_self rfl) rfl hrun

/-- **One operation.** What a successful operation does is what the byte store does for the arguments
that Redis gets, with a text in the result cut at its first NUL. -/
theorem acts_of_succeeds (hsucceeds : op.Succeeds db) :
    ∃ result value next, Acts op db result value next := by
  cases op with
  | Get key value => exact acts_Get hsucceeds
  | Set key value => exact acts_Set
  | Auth password => exact absurd rfl hsucceeds.1
  | LPush key value => exact acts_LPush hsucceeds
  | LPop key value => exact acts_LPop hsucceeds
  | RPush key value => exact acts_RPush hsucceeds
  | RPop key value => exact acts_RPop hsucceeds
  | HSet key hkey value => exact acts_HSet hsucceeds
  | HSetLen key hkey hvalue hvaluelen => exact acts_HSetLen hsucceeds
  | HGet key hkey => exact acts_HGet hsucceeds
  | Del key => exact acts_Del
  | ExistsKey key => exact acts_ExistsKey

end RedisOp

end QuickChat
