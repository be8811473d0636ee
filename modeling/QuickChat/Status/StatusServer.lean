import QuickChat.Lib.Machine
import QuickChat.Status.StatusServiceImpl

/-!
# A status server and its calls

The server handles `GetChatServer` and `Login` calls over a store that only it writes to, but for the
hash of login counts, which the chat servers may change to anything at any time. It keeps the replies
it has given, and the store as each `GetChatServer` call found it.
-/

namespace QuickChat

open Text

inductive StatusReply where
  | GetChatServer (uid : Int32) (result : Except StdException GetChatServerRsp)
  | Login (uid : Int32) (token : Bytes) (rsp : LoginRsp)

inductive StatusCall where
  | GetChatServer (uid : Int32) (uuid : Uuid)
  | Login (uid : Int32) (token : Bytes)
  /-- the login counts change -/
  | loginCount (entry : Option (RedisValue × Option Nat))

structure StatusServer where
  servers_ : ServerTable
  redis : Redis
  replies : List StatusReply
  found : List Redis

namespace StatusServer

def start (servers_ : ServerTable) (redis : Redis) : StatusServer := ⟨servers_, redis, [], []⟩

def step (server : StatusServer) : StatusCall → Option StatusServer
  | .GetChatServer uid uuid =>
      (RedisMgr.run (StatusServiceImpl.GetChatServer server.servers_ uid uuid) server.redis).map
        fun ((result, servers_), redis) =>
          ⟨servers_, redis, server.replies ++ [.GetChatServer uid result],
            server.found ++ [server.redis]⟩
  | .Login uid token =>
      (RedisMgr.run (StatusServiceImpl.Login uid token) server.redis).map fun (rsp, redis) =>
        { server with redis := redis, replies := server.replies ++ [.Login uid token rsp] }
  | .loginCount entry => some { server with redis := server.redis.put LOGIN_COUNT entry }

/-- The token most recently issued to the user, among the replies. -/
def lastToken (replies : List StatusReply) (uid : Int32) : Option Bytes :=
  replies.foldl (fun last reply =>
    match reply with
    | .GetChatServer uid' (.ok rsp) => if uid' = uid then some rsp.token else last
    | _ => last) none

def loginError (server : StatusServer) (uid : Int32) (token : Bytes) : Option Int :=
  (RedisMgr.run (StatusServiceImpl.Login uid token) server.redis).map fun result => result.1.error

end StatusServer

end QuickChat
