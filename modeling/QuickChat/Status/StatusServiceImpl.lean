import QuickChat.Common.ConfigMgr
import QuickChat.Common.Const
import QuickChat.Common.RedisMgr

/-!
# The status service

`GetChatServer` picks a chat server for a user and issues a token; `Login` checks the token. The
table of servers is listed in the order in which the unordered map iterates, which is any order but
stays the same from call to call. `getChatServer` works on the entries in place, so it returns the
table it leaves behind, also when `std::stoi` throws half way.
-/

namespace QuickChat

open Text

structure ChatServer where
  host : Bytes
  port : Bytes
  name : Bytes
  con_count : Int
  deriving DecidableEq, Repr

/-- `servers_`, in iteration order. -/
abbrev ServerTable := List (Bytes × ChatServer)

structure GetChatServerRsp where
  error : Int
  host : Bytes
  port : Bytes
  token : Bytes
  deriving DecidableEq, Repr

structure LoginRsp where
  error : Int
  uid : Int32
  token : Bytes
  deriving DecidableEq

structure Uuid where
  bytes : Bytes
  length_eq : bytes.length = 16

def hexDigit (n : Nat) : UInt8 := if n < 10 then UInt8.ofNat (48 + n) else UInt8.ofNat (87 + n)

/-- `boost::uuids::to_string`: two digits a byte, and dashes after bytes 3, 5, 7 and 9. -/
def Uuid.to_string (uuid : Uuid) : Bytes :=
  uuid.bytes.zipIdx.flatMap fun (b, i) =>
    [hexDigit (b.toNat / 16), hexDigit (b.toNat % 16)] ++
      if i = 3 ∨ i = 5 ∨ i = 7 ∨ i = 9 then [45] else []

def generate_unique_string (uuid : Uuid) : Bytes := uuid.to_string

namespace StatusServiceImpl

variable {κ : Type}

def insertServer (servers_ : ServerTable) (server : ChatServer) : ServerTable :=
  if servers_.any (·.1 = server.name) then
    servers_.map fun entry => if entry.1 = server.name then (entry.1, server) else entry
  else servers_ ++ [(server.name, server)]

/-- The constructor, with the entries in the order in which they are added. -/
def new (cfg : ConfigMgr) : ServerTable :=
  ((getlines 44 (cfg.value "chatservers" "Name")).filter fun word =>
      cfg.valueIn word "Name" ≠ []).foldl (fun servers_ word =>
    insertServer servers_
      ⟨cfg.valueIn word "Host", cfg.valueIn word "Port", cfg.valueIn word "Name", 0⟩) []

def loadCount (server : ChatServer) (count_str : Bytes) : Except StdException ChatServer := do
  if count_str = [] then
    return { server with con_count := intMax }
  return { server with con_count := ← stoi count_str }

/-- The loop of `getChatServer` over the entries behind the first. `minServer` is a reference to the
first entry: assigning a smaller server to it replaces that entry. -/
def visit (minServer : ChatServer) :
    ServerTable → RedisProgram κ (Except StdException Unit × ChatServer × ServerTable)
  | [] => return (.ok (), minServer, [])
  | (key, server) :: rest => do
      if server.name = minServer.name then
        let (result, minServer, rest) ← visit minServer rest
        return (result, minServer, (key, server) :: rest)
      let count_str ← RedisMgr.HGet LOGIN_COUNT server.name
      match loadCount server count_str with
      | .error e => return (.error e, minServer, (key, server) :: rest)
      | .ok server =>
          let minServer := if server.con_count < minServer.con_count then server else minServer
          let (result, minServer, rest) ← visit minServer rest
          return (result, minServer, (key, server) :: rest)

/-- `servers_.begin()` of an empty table points to no entry. The loop starts with the first entry
itself, whose name is that of `minServer`. -/
def getChatServer :
    ServerTable → RedisProgram κ (Except StdException ChatServer × ServerTable)
  | [] => RedisMgr.nullRead
  | (key, minServer) :: rest => do
      let count_str ← RedisMgr.HGet LOGIN_COUNT minServer.name
      match loadCount minServer count_str with
      | .error e => return (.error e, (key, minServer) :: rest)
      | .ok minServer =>
          let (result, minServer, rest) ← visit minServer rest
          return (result.map fun _ => minServer, (key, minServer) :: rest)

def token_key (uid : Int32) : Bytes := USERTOKENPREFIX ++ to_string uid.toInt

def insertToken (uid : Int32) (token : Bytes) : RedisProgram κ Unit := do
  let _ ← RedisMgr.Set (token_key uid) token

def GetChatServer (servers_ : ServerTable) (uid : Int32) (uuid : Uuid) :
    RedisProgram κ (Except StdException GetChatServerRsp × ServerTable) := do
  match ← getChatServer servers_ with
  | (.error e, servers_) => return (.error e, servers_)
  | (.ok server, servers_) =>
      let reply : GetChatServerRsp :=
        ⟨ErrorCodes.Success.value, server.host, server.port, generate_unique_string uuid⟩
      insertToken uid reply.token
      return (.ok reply, servers_)

/-- A reply starts out with the defaults of its fields. -/
def Login (uid : Int32) (token : Bytes) : RedisProgram κ LoginRsp := do
  let (success, token_value) ← RedisMgr.Get (token_key uid) []
  if success then
    return ⟨ErrorCodes.UidInvalid.value, 0, []⟩
  if token_value ≠ token then
    return ⟨ErrorCodes.TokenInvalid.value, 0, []⟩
  return ⟨ErrorCodes.Success.value, uid, token⟩

end StatusServiceImpl

end QuickChat
