import QuickChat.Status.StatusServiceImpl

/-!
# GetChatServer calls in parallel

`getChatServer` returns a reference to the first entry of the table and gives up the mutex. A call
reads `host` and `port` through that reference afterwards, one after the other, and between its steps
other calls select and overwrite the entry. The login counts may be anything at each selection.

A call keeps the server that was selected for it, to compare its reply with. What it does behind the
last read, it does to its own reply and to Redis.
-/

namespace QuickChat

open Text

inductive CallProgress where
  | entered
  | selected (server : ChatServer)
  | hostRead (server : ChatServer) (host : Bytes)
  | replied (server : ChatServer) (reply : GetChatServerRsp)
  | thrown (e : StdException)
  deriving DecidableEq

structure StatusCalls where
  servers_ : ServerTable
  calls : List CallProgress
  deriving DecidableEq

inductive StatusStep where
  | call
  | select (i : Nat) (redis : Redis)
  | readHost (i : Nat)
  | readPort (i : Nat) (uuid : Uuid)

namespace StatusCalls

def start (servers_ : ServerTable) : StatusCalls := ⟨servers_, []⟩

/-- What the reference that `getChatServer` returns refers to. -/
def minServer (servers_ : ServerTable) : Option ChatServer := servers_.head?.map Prod.snd

def selection : Except StdException ChatServer → CallProgress
  | .error e => .thrown e
  | .ok server => .selected server

def step (state : StatusCalls) : StatusStep → Option StatusCalls
  | .call => some { state with calls := state.calls ++ [.entered] }
  | .select i redis =>
      match state.calls[i]? with
      | some .entered =>
          (RedisMgr.run (StatusServiceImpl.getChatServer state.servers_) redis).map
            fun ((result, servers_), _) => ⟨servers_, state.calls.set i (selection result)⟩
      | _ => none
  | .readHost i =>
      match state.calls[i]?, minServer state.servers_ with
      | some (.selected server), some first =>
          some { state with calls := state.calls.set i (.hostRead server first.host) }
      | _, _ => none
  | .readPort i uuid =>
      match state.calls[i]?, minServer state.servers_ with
      | some (.hostRead server host), some first =>
          some { state with calls := state.calls.set i (.replied server
            ⟨ErrorCodes.Success.value, host, first.port, generate_unique_string uuid⟩) }
      | _, _ => none

end StatusCalls

end QuickChat
