import QuickChat.Proof.RedisMgr
import QuickChat.Status.StatusServer

/-!
# The status service over a store

Against a store every call is a function of what it finds there: `getChatServer` of the login counts,
`Login` of the string under the user's key.
-/

namespace QuickChat

open Text

/-! ### Tokens and keys -/

theorem hexDigit_ne_zero : ∀ n < 16, hexDigit n ≠ 0 := by decide

theorem not_mem_generate_unique_string (uuid : Uuid) : (0 : UInt8) ∉ generate_unique_string uuid := by
  intro hmem
  obtain ⟨⟨b, i⟩, -, hmem⟩ := List.mem_flatMap.mp hmem
  have hb := b.toNat_lt
  have hhigh := hexDigit_ne_zero (b.toNat / 16) (by omega)
  have hlow := hexDigit_ne_zero (b.toNat % 16) (by omega)
  simp only [List.cons_append, List.nil_append, List.mem_cons] at hmem
  rcases hmem with hmem | hmem | hmem
  · exact hhigh hmem.symm
  · exact hlow hmem.symm
  · split at hmem <;> simp at hmem

namespace StatusServiceImpl

theorem not_mem_token_key (uid : Int32) : (0 : UInt8) ∉ token_key uid := by
  simp only [token_key, List.mem_append, not_or]
  exact ⟨by decide, zero_not_mem_to_string _⟩

theorem token_key_injective : Function.Injective token_key := by
  intro uid uid' heq
  have hint := to_string_injective (List.append_cancel_left heq)
  exact Int32.toInt_inj.mp hint

theorem token_key_ne_LOGIN_COUNT (uid : Int32) : token_key uid ≠ LOGIN_COUNT := by
  intro heq
  have hhead := congrArg List.head? heq
  simp [token_key, USERTOKENPREFIX, LOGIN_COUNT, ascii] at hhead

/-! ### The selection of a server -/

/-- The loop, when the lookup of a name's login count gives `count name`. -/
def visitWith (count : Bytes → Bytes) (minServer : ChatServer) :
    ServerTable → Except StdException Unit × ChatServer × ServerTable
  | [] => (.ok (), minServer, [])
  | (key, server) :: rest =>
      if server.name = minServer.name then
        let result := visitWith count minServer rest
        (result.1, result.2.1, (key, server) :: result.2.2)
      else
        match loadCount server (count server.name) with
        | .error e => (.error e, minServer, (key, server) :: rest)
        | .ok server =>
            let result := visitWith count
              (if server.con_count < minServer.con_count then server else minServer) rest
            (result.1, result.2.1, (key, server) :: result.2.2)

def selectWith (count : Bytes → Bytes) :
    ServerTable → Option (Except StdException ChatServer × ServerTable)
  | [] => none
  | (key, minServer) :: rest =>
      match loadCount minServer (count minServer.name) with
      | .error e => some (.error e, (key, minServer) :: rest)
      | .ok minServer =>
          let result := visitWith count minServer rest
          some (result.1.map fun _ => result.2.1, (key, result.2.1) :: result.2.2)

theorem runThrough_visit (link : RedisLink) (db : Redis) (minServer : ChatServer) (rest : ServerTable) :
    RedisMgr.runThrough link (visit minServer rest) db
      = some (visitWith (RedisMgr.linkText db link LOGIN_COUNT) minServer rest, db) := by
  induction rest generalizing minServer with
  | nil => rfl
  | cons entry rest ih =>
      obtain ⟨key, server⟩ := entry
      rw [visit, visitWith]
      by_cases hname : server.name = minServer.name
      · simp [hname, ih]
      · rw [if_neg hname, if_neg hname, RedisMgr.runThrough_bind, RedisMgr.runThrough_HGet,
          Option.bind_some]
        cases loadCount server (RedisMgr.linkText db link LOGIN_COUNT server.name) with
        | error e => rfl
        | ok loaded => simp [ih]

theorem runThrough_getChatServer (link : RedisLink) (db : Redis) (servers_ : ServerTable) :
    RedisMgr.runThrough link (getChatServer servers_) db
      = (selectWith (RedisMgr.linkText db link LOGIN_COUNT) servers_).map
          fun result => (result, db) := by
  cases servers_ with
  | nil => rfl
  | cons entry rest =>
      obtain ⟨key, minServer⟩ := entry
      rw [getChatServer, selectWith, RedisMgr.runThrough_bind, RedisMgr.runThrough_HGet,
        Option.bind_some]
      cases loadCount minServer (RedisMgr.linkText db link LOGIN_COUNT minServer.name) with
      | error e => rfl
      | ok loaded => simp [runThrough_visit]

theorem run_getChatServer (db : Redis) (servers_ : ServerTable) :
    RedisMgr.run (getChatServer servers_) db
      = (selectWith (db.hashText LOGIN_COUNT) servers_).map fun result => (result, db) := by
  rw [RedisMgr.run_eq_runThrough, runThrough_getChatServer]
  rfl

def storeToken (link : RedisLink) (db : Redis) (uid : Int32) (token : Bytes) : Redis :=
  if link.executes [ascii "SET", token_key uid, token] then
    db.put (token_key uid) (some (.string token, none))
  else db

theorem runThrough_insertToken (link : RedisLink) (db : Redis) (uid : Int32) {token : Bytes}
    (htoken : (0 : UInt8) ∉ token) :
    RedisMgr.runThrough link (insertToken uid token) db
      = some ((), storeToken link db uid token) := by
  obtain ⟨ok, hset⟩ := RedisMgr.runThrough_Set db link (token_key uid) token
  rw [c_str_of_not_mem (not_mem_token_key uid), c_str_of_not_mem htoken] at hset
  rw [insertToken, RedisMgr.runThrough_bind, hset]
  rfl

/-- A call over a link selects by the counts that come back, and stores the token if that command is
executed. -/
theorem runThrough_GetChatServer (link : RedisLink) (db : Redis) (servers_ : ServerTable) (uid : Int32)
    (uuid : Uuid) :
    RedisMgr.runThrough link (GetChatServer servers_ uid uuid) db
      = (selectWith (RedisMgr.linkText db link LOGIN_COUNT) servers_).map fun
        | (.error e, servers_) => ((.error e, servers_), db)
        | (.ok server, servers_) =>
            ((.ok ⟨ErrorCodes.Success.value, server.host, server.port,
                generate_unique_string uuid⟩, servers_),
              if link.executes [ascii "SET", token_key uid, generate_unique_string uuid] then
                db.put (token_key uid) (some (.string (generate_unique_string uuid), none))
              else db) := by
  rw [GetChatServer, RedisMgr.runThrough_bind, runThrough_getChatServer]
  cases selectWith (RedisMgr.linkText db link LOGIN_COUNT) servers_ with
  | none => rfl
  | some result =>
      obtain ⟨selected, servers_⟩ := result
      cases selected with
      | error e => rfl
      | ok server =>
          simp [runThrough_insertToken link db uid (not_mem_generate_unique_string uuid), storeToken]

/-- The selection changes nothing in Redis, so the token is all that a call leaves there. -/
theorem run_GetChatServer (db : Redis) (servers_ : ServerTable) (uid : Int32) (uuid : Uuid) :
    RedisMgr.run (GetChatServer servers_ uid uuid) db
      = (selectWith (db.hashText LOGIN_COUNT) servers_).map fun
        | (.error e, servers_) => ((.error e, servers_), db)
        | (.ok server, servers_) =>
            ((.ok ⟨ErrorCodes.Success.value, server.host, server.port,
                generate_unique_string uuid⟩, servers_),
              db.put (token_key uid) (some (.string (generate_unique_string uuid), none))) := by
  rw [RedisMgr.run_eq_runThrough, runThrough_GetChatServer]
  rfl

/-- A user whose key holds a string is refused. Without one, only the empty token passes. -/
theorem run_Login (db : Redis) (uid : Int32) (token : Bytes) :
    RedisMgr.run (Login uid token) db = some (match db.text (token_key uid) with
      | some _ => (⟨ErrorCodes.UidInvalid.value, 0, []⟩, db)
      | none => (if token = [] then ⟨ErrorCodes.Success.value, uid, token⟩
          else ⟨ErrorCodes.TokenInvalid.value, 0, []⟩, db)) := by
  rw [Login, RedisMgr.run_bind, RedisMgr.run_Get, Option.bind_some]
  cases db.text (token_key uid) with
  | none => by_cases htoken : token = [] <;> simp [htoken, eq_comm]
  | some stored => rfl

end StatusServiceImpl

end QuickChat
