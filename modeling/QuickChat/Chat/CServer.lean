import QuickChat.Chat.CSession
import Mathlib.Data.Finset.Erase
import Mathlib.Data.Finset.Insert
import Mathlib.Data.Finset.SDiff

/-!
# The sessions of the chat server

`CServer` keeps the sessions by their identifiers, and `UserMgr` the session of each user that has
logged in; the uid in a session object is what links the two. A session object stands for itself under
its `session_id_`.

Three machines work on them: `HandleAccept` among the handlers of the sessions it starts, logins among
accepts and clears, and the read loop of one session with the server it is registered at.
-/

namespace QuickChat

structure UserMgr (Id : Type) where
  uid_to_session_ : Int32 → Option Id

namespace UserMgr

variable {Id : Type}

def GetSession (mgr : UserMgr Id) (uid : Int32) : Option Id := mgr.uid_to_session_ uid

def SetUserSession (mgr : UserMgr Id) (uid : Int32) (session : Id) : UserMgr Id :=
  ⟨Function.update mgr.uid_to_session_ uid (some session)⟩

def RmvUserSession (mgr : UserMgr Id) (uid : Int32) : UserMgr Id :=
  ⟨Function.update mgr.uid_to_session_ uid none⟩

@[simp]
theorem GetSession_RmvUserSession (mgr : UserMgr Id) (uid other : Int32) :
    (mgr.RmvUserSession uid).GetSession other = if other = uid then none else mgr.GetSession other :=
  Function.update_apply _ _ _ _

end UserMgr

/-- `sessions_` with the `user_uid_` of every session object, and the user manager. -/
structure CServer (Id : Type) where
  sessions_ : Finset Id
  user_uid_ : Id → Int32
  userMgr : UserMgr Id

namespace CServer

variable {Id : Type} [DecidableEq Id]

def init : CServer Id := ⟨∅, fun _ => 0, ⟨fun _ => none⟩⟩

def GetUserId (server : CServer Id) (session : Id) : Int32 := server.user_uid_ session

def SetUserId (server : CServer Id) (session : Id) (uid : Int32) : CServer Id :=
  { server with user_uid_ := Function.update server.user_uid_ session uid }

def insert (server : CServer Id) (uuid : Id) : CServer Id :=
  { server with sessions_ := Insert.insert uuid server.sessions_ }

def ClearSession (server : CServer Id) (uuid : Id) : CServer Id :=
  { server with
    userMgr :=
      if uuid ∈ server.sessions_ then server.userMgr.RmvUserSession (server.GetUserId uuid)
      else server.userMgr
    sessions_ := server.sessions_.erase uuid }

def login (server : CServer Id) (session : Id) (uid : Int32) : CServer Id :=
  let server := server.SetUserId session uid
  { server with userMgr := server.userMgr.SetUserSession uid session }

@[simp]
theorem sessions_insert (server : CServer Id) (uuid : Id) :
    (server.insert uuid).sessions_ = Insert.insert uuid server.sessions_ := rfl

@[simp]
theorem sessions_ClearSession (server : CServer Id) (uuid : Id) :
    (server.ClearSession uuid).sessions_ = server.sessions_.erase uuid := rfl

/-- The one uid that is lost is that which the session carries, whoever has it by now. -/
theorem GetSession_ClearSession (server : CServer Id) (uuid : Id) (uid : Int32) :
    (server.ClearSession uuid).userMgr.GetSession uid =
      if uuid ∈ server.sessions_ ∧ uid = server.GetUserId uuid then none
      else server.userMgr.GetSession uid := by
  unfold ClearSession
  split_ifs with hmem hcleared hcleared
  · rw [UserMgr.GetSession_RmvUserSession, if_pos hcleared.2]
  · rw [UserMgr.GetSession_RmvUserSession, if_neg fun huid => hcleared ⟨hmem, huid⟩]
  · exact absurd hcleared.1 hmem
  · rfl

end CServer

/-! ### Accepting -/

/-- The accept thread and the handlers of the sessions. `handlers` are the failing handlers that have
closed their session and are about to clear it; a session may have several. -/
structure AcceptLoop (Id : Type) where
  server : CServer Id
  accepting : Option Id
  started : Finset Id
  handlers : List Id
  closed : Finset Id
  cleared : Finset Id

namespace AcceptLoop

variable {Id : Type} [DecidableEq Id]

inductive Event (Id : Type) where
  /-- `HandleAccept` without an error: the new session is started -/
  | Start (id : Id)
  /-- and inserted, before the next `async_accept` -/
  | insert
  | acceptFailed
  /-- a handler of the session fails -/
  | Close (id : Id)
  | ClearSession (id : Id)
  deriving DecidableEq

def init : AcceptLoop Id := ⟨CServer.init, none, ∅, [], ∅, ∅⟩

def step (loop : AcceptLoop Id) : Event Id → Option (AcceptLoop Id)
  | .Start id =>
      if loop.accepting = none ∧ id ∉ loop.started then
        some { loop with accepting := some id, started := Insert.insert id loop.started }
      else none
  | .insert =>
      match loop.accepting with
      | none => none
      | some id => some { loop with server := loop.server.insert id, accepting := none }
  | .acceptFailed => if loop.accepting = none then some loop else none
  | .Close id =>
      if id ∈ loop.started then
        some { loop with
          handlers := id :: loop.handlers, closed := Insert.insert id loop.closed }
      else none
  | .ClearSession id =>
      if id ∈ loop.handlers then
        some { loop with
          server := loop.server.ClearSession id
          handlers := loop.handlers.erase id, cleared := Insert.insert id loop.cleared }
      else none

end AcceptLoop

/-! ### Logging in -/

structure LoginServer (Id : Type) where
  server : CServer Id
  accepted : Finset Id

namespace LoginServer

variable {Id : Type} [DecidableEq Id]

inductive Event (Id : Type) where
  | accept (id : Id)
  | login (id : Id) (uid : Int32)
  | ClearSession (id : Id)
  deriving DecidableEq

def init : LoginServer Id := ⟨CServer.init, ∅⟩

def step (logins : LoginServer Id) : Event Id → Option (LoginServer Id)
  | .accept id =>
      if id ∈ logins.accepted then none
      else some ⟨logins.server.insert id, Insert.insert id logins.accepted⟩
  | .login id uid =>
      if id ∈ logins.accepted then some { logins with server := logins.server.login id uid } else none
  | .ClearSession id => some { logins with server := logins.server.ClearSession id }

end LoginServer

/-! ### Reading -/

/-- A session that `HandleAccept` has started, at its server. -/
structure ServedSession (Id : Type) where
  server : CServer Id
  session : CSession
  registered : Bool

namespace ServedSession

variable {Id : Type} [DecidableEq Id]

inductive Event where
  | read (completion : Completion)
  /-- `HandleAccept` inserts the session into `sessions_` -/
  | insert
  /-- `HandleWrite` is given an error -/
  | writeFailed
  deriving DecidableEq

def start (server : CServer Id) : ServedSession Id := ⟨server, CSession.init.Start, false⟩

/-- The flag `cleared` of the session says whether the completion at hand has called `ClearSession`. -/
def step (id : Id) (served : ServedSession Id) : Event → Option (ServedSession Id)
  | .read completion =>
      (CSession.step { served.session with cleared := false } completion).map fun session =>
        { served with
          session := session
          server := if session.cleared then served.server.ClearSession id else served.server }
  | .insert =>
      if served.registered then none
      else some { served with server := served.server.insert id, registered := true }
  | .writeFailed =>
      some { served with
        session := served.session.Close, server := served.server.ClearSession id }

end ServedSession

end QuickChat
