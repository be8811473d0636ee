import QuickChat.Common.RedisMgr

/-!
# What the operations do to the store

With every command executed, an operation is a function of the store: `Get` gives a string up to its
first NUL, `Set` puts one there, and `HGet` gives the text of whatever the reply is.
-/

namespace QuickChat

open Text

namespace Redis

theorem lookup_put_self (db : Redis) (key : Bytes) (value : RedisValue) :
    (db.put key (some (value, none))).lookup key = some value := by
  simp [lookup, put]

theorem lookup_put_of_ne {db : Redis} {key other : Bytes} (hne : other ≠ key)
    (entry : Option (RedisValue × Option Nat)) :
    (db.put key entry).lookup other = db.lookup other := by
  have hentry : (db.put key entry).entries other = db.entries other :=
    Function.update_of_ne hne _ _
  rw [lookup, lookup, hentry]
  rfl

/-- What `Get` finds: the key and the string under it are read up to their first NUL. -/
def text (db : Redis) (key : Bytes) : Option Bytes :=
  match db.lookup (c_str key) with
  | some (.string s) => some (c_str s)
  | _ => none

/-- Without a NUL in the key and the string, the string is found as it is. -/
theorem text_eq_some_iff_lookup {db : Redis} {key value : Bytes} (hkey : (0 : UInt8) ∉ key)
    (hstring : ∀ s, db.lookup key = some (.string s) → (0 : UInt8) ∉ s) :
    db.text key = some value ↔ db.lookup key = some (.string value) := by
  rw [text, c_str_of_not_mem hkey]
  cases hlookup : db.lookup key with
  | none => simp
  | some stored =>
      cases stored with
      | string s => simp [c_str_of_not_mem (hstring s hlookup)]
      | list xs => simp
      | hash fields => simp

theorem text_put_string {db : Redis} {key value : Bytes} (hkey : (0 : UInt8) ∉ key)
    (hvalue : (0 : UInt8) ∉ value) :
    (db.put key (some (.string value, none))).text key = some value := by
  rw [text, c_str_of_not_mem hkey, lookup_put_self]
  exact congrArg some (c_str_of_not_mem hvalue)

/-- What `HGet` returns: nothing for a nil reply, and its text for any other. -/
def hashText (db : Redis) (key field : Bytes) : Bytes :=
  match db.lookup key with
  | none => []
  | some (.hash fields) => ((fields field).map c_str).getD []
  | some _ => c_str (ascii "WRONGTYPE Operation against a key holding the wrong kind of value")

end Redis

namespace RedisMgr

/-! ### A connection, a command, and its answer -/

section Sending

variable {κ α β : Type} {argv : List Bytes} {failure : α}

/-- What `execute` and `Auth` have in common: without a connection nothing is sent. -/
def sending (argv : List Bytes) (failure : α) (onAnswer : Option redisReply → RedisProgram κ α) :
    RedisProgram κ α := do
  let connect ← getConnection
  if connect.isNone then
    return failure
  onAnswer (← redisCommand connect argv)

theorem execute_eq_sending (onReply : redisReply → RedisProgram κ α) :
    execute argv failure onReply =
      sending argv failure (fun answer => answer.elim (pure failure) onReply) := by
  rw [execute, sending]
  congr 1
  funext connect
  cases connect with
  | none => rfl
  | some connection =>
      refine congrArg (redisCommand (some connection) argv >>= ·) (funext fun answer => ?_)
      cases answer <;> rfl

theorem Auth_eq_sending (password : Bytes) :
    (Auth password : RedisProgram κ Bool) = sending [ascii "AUTH", c_str password] false
      fun answer => answer.elim nullRead fun reply => pure (decide (reply.type ≠ .ERROR)) := by
  rw [Auth, sending]
  congr 1
  funext connect
  cases connect with
  | none => rfl
  | some connection =>
      refine congrArg (redisCommand (some connection) _ >>= ·) (funext fun answer => ?_)
      cases answer <;> rfl

/-- What comes behind an operation comes behind its reply. -/
theorem sending_bind {failure' : β} {onAnswer : Option redisReply → RedisProgram κ α}
    {second : α → RedisProgram κ β} (hfailure : second failure = pure failure') :
    sending argv failure onAnswer >>= second =
      sending argv failure' fun answer => onAnswer answer >>= second := by
  rw [sending, sending, LawfulMonad.bind_assoc]
  congr 1
  funext connect
  cases connect with
  | none => exact hfailure
  | some connection => exact LawfulMonad.bind_assoc _ _ _

end Sending

variable {α β : Type} (db : Redis)

@[simp]
theorem run_ret (value : α) : run (Program.ret value) db = some (value, db) := rfl

@[simp]
theorem run_nullRead : run (nullRead : RedisProgram Unit α) db = none := rfl

@[simp]
theorem run_bind (program : RedisProgram Unit α) (second : α → RedisProgram Unit β) :
    run (program >>= second) db =
      (run program db).bind fun result => run (second result.1) result.2 := by
  rw [run, Program.interp_bind]
  rfl

theorem run_execute (argv : List Bytes) (failure : α) (onReply : redisReply → RedisProgram Unit α) :
    run (execute argv failure onReply) db = run (onReply (db.exec argv).1) (db.exec argv).2 := rfl

/-- `Get` finds what its key, cut at the first NUL, has. -/
theorem run_Get (key value : Bytes) :
    run (Get key value) db = some (match db.text key with
      | some s => ((true, s), db)
      | none => ((false, value), db)) := by
  rw [Get, run_execute, show db.exec [ascii "GET", c_str key] = db.get (c_str key) from rfl,
    Redis.get, Redis.text]
  cases db.lookup (c_str key) with
  | none => rfl
  | some stored =>
      cases stored with
      | string s => rfl
      | list xs => rfl
      | hash fields => rfl

theorem run_Set (key value : Bytes) :
    run (Set key value) db =
      some (true, db.put (c_str key) (some (.string (c_str value), none))) := rfl

/-- An ERROR reply is given out as the value, since it has a text. -/
theorem run_HGet (key field : Bytes) :
    run (HGet key field) db = some (db.hashText key field, db) := by
  rw [HGet, run_execute, show db.exec [ascii "HGET", key, field] = db.hget key field from rfl,
    Redis.hget, Redis.hashText]
  cases db.lookup key with
  | none => rfl
  | some stored =>
      cases stored with
      | string s => rfl
      | list xs => rfl
      | hash fields =>
          cases hfield : fields field with
          | none => simp [hfield, redisReply.nil]
          | some value => simp [hfield, redisReply.ofString, replyText]

/-! ### Over a link -/

def sound : RedisLink := ⟨fun _ => true, fun _ => true⟩

theorem run_eq_runThrough (program : RedisProgram Unit α) :
    run program db = runThrough sound program db := by
  have hserve : serve = serveThrough sound := by
    funext effect
    cases effect with
    | getConnection => rfl
    | returnConnection connection => rfl
    | other effect => cases effect <;> rfl
  rw [run, runThrough, hserve]

variable (link : RedisLink)

@[simp]
theorem runThrough_ret (value : α) : runThrough link (Program.ret value) db = some (value, db) := rfl

@[simp]
theorem runThrough_bind (program : RedisProgram Unit α) (second : α → RedisProgram Unit β) :
    runThrough link (program >>= second) db =
      (runThrough link program db).bind fun result =>
        runThrough link (second result.1) result.2 := by
  rw [runThrough, Program.interp_bind]
  rfl

/-- A command that is lost has no reply, and one whose reply is lost has been executed. -/
theorem runThrough_execute (argv : List Bytes) (failure : α)
    (onReply : redisReply → RedisProgram Unit α) :
    runThrough link (execute argv failure onReply) db =
      if link.executes argv then
        if link.answers argv then runThrough link (onReply (db.exec argv).1) (db.exec argv).2
        else some (failure, (db.exec argv).2)
      else some (failure, db) := by
  have hserve : serveThrough link (.other (.redisCommand (some ()) argv)) db =
      if link.executes argv then
        some (if link.answers argv then some (db.exec argv).1 else none, (db.exec argv).2)
      else some (none, db) := rfl
  change (serveThrough link (.other (.redisCommand (some ()) argv)) db).bind _ = _
  rw [hserve]
  by_cases hexecutes : link.executes argv
  · rw [if_pos hexecutes, if_pos hexecutes]
    by_cases hanswers : link.answers argv
    · rw [if_pos hanswers, if_pos hanswers]
      rfl
    · rw [if_neg hanswers, if_neg hanswers]
      rfl
  · rw [if_neg hexecutes, if_neg hexecutes]
    rfl

def linkText (key field : Bytes) : Bytes :=
  if link.executes [ascii "HGET", key, field] ∧ link.answers [ascii "HGET", key, field] then
    db.hashText key field
  else []

theorem snd_exec_hget (key field : Bytes) : (db.exec [ascii "HGET", key, field]).2 = db := by
  rw [show db.exec [ascii "HGET", key, field] = db.hget key field from rfl, Redis.hget]
  cases db.lookup key with
  | none => rfl
  | some stored =>
      cases stored with
      | string s => rfl
      | list xs => rfl
      | hash fields => cases hfield : fields field <;> simp [hfield]

theorem runThrough_HGet (key field : Bytes) :
    runThrough link (HGet key field) db = some (linkText db link key field, db) := by
  have hfound := run_HGet db key field
  rw [HGet, run_execute, snd_exec_hget] at hfound
  rw [HGet, runThrough_execute, linkText, snd_exec_hget]
  by_cases hexecutes : link.executes [ascii "HGET", key, field]
  · by_cases hanswers : link.answers [ascii "HGET", key, field]
    · rw [if_pos (And.intro hexecutes hanswers), ← hfound, if_pos hexecutes, if_pos hanswers]
      -- no command follows the reply
      split
      · rfl
      · rw [replyText]
        cases (db.exec [ascii "HGET", key, field]).1.str <;> rfl
    · simp [hexecutes, hanswers]
  · simp [hexecutes]

theorem snd_exec_get (key : Bytes) : (db.exec [ascii "GET", key]).2 = db := by
  rw [show db.exec [ascii "GET", key] = db.get key from rfl, Redis.get]
  cases db.lookup key with
  | none => rfl
  | some stored => cases stored <;> rfl

/-- What `Get` returns over the link: as for a missing key when no reply comes back. -/
theorem runThrough_Get (key value : Bytes) :
    runThrough link (Get key value) db =
      if link.executes [ascii "GET", c_str key] ∧ link.answers [ascii "GET", c_str key] then
        run (Get key value) db
      else some ((false, value), db) := by
  rw [Get, runThrough_execute, run_execute, snd_exec_get]
  by_cases hexecutes : link.executes [ascii "GET", c_str key]
  · by_cases hanswers : link.answers [ascii "GET", c_str key]
    · rw [if_pos (And.intro hexecutes hanswers), if_pos hexecutes, if_pos hanswers]
      -- no command follows the reply
      split
      · rfl
      · rw [replyText]
        cases (db.exec [ascii "GET", c_str key]).1.str <;> rfl
    · simp [hexecutes, hanswers]
  · simp [hexecutes]

/-- The command of `Set` may be executed and its reply lost. -/
theorem runThrough_Set (key value : Bytes) :
    ∃ ok, runThrough link (Set key value) db =
      some (ok, if link.executes [ascii "SET", c_str key, c_str value] then
        db.put (c_str key) (some (.string (c_str value), none)) else db) := by
  rw [Set, runThrough_execute]
  by_cases hexecutes : link.executes [ascii "SET", c_str key, c_str value]
  · rw [if_pos hexecutes, if_pos hexecutes]
    by_cases hanswers : link.answers [ascii "SET", c_str key, c_str value]
    · rw [if_pos hanswers]
      exact ⟨true, rfl⟩
    · rw [if_neg hanswers]
      exact ⟨false, rfl⟩
  · rw [if_neg hexecutes, if_neg hexecutes]
    exact ⟨false, rfl⟩

end RedisMgr

end QuickChat
