import QuickChat.Chat.CSession
import QuickChat.Chat.LogicSystem

/-!
# The chat server at work

The sessions read on the threads of the pool, and each message that one of them has filled goes into
the queue of the one worker. A completion runs the callbacks of its session up to the next read. Where
they post a message they need the mutex, so such a completion is a step only while the worker does not
hold it; the notification behind the critical section is a step of its own.

Which sessions are registered, and what is sent to them, has no part in this. The state keeps how the
reads of each session have completed.
-/

namespace QuickChat

structure ChatSessions (Id : Type) where
  started : Finset Id
  session : Id → CSession
  logic : Chat.LogicSystem Id
  completions : Id → List Completion

namespace ChatSessions

variable {Id : Type} [DecidableEq Id]

inductive Event (Id : Type) where
  /-- `HandleAccept` starts a session -/
  | Start (id : Id)
  | read (id : Id) (completion : Completion)
  /-- a step of the worker, of a poster that has posted, or of the destructor -/
  | logic (event : Chat.LogicSystem.Event Id)

def init : ChatSessions Id := ⟨∅, fun _ => CSession.init, .init, fun _ => []⟩

/-- Only a node of which `total_len_` bytes have been read is posted, and no read fills a node of
negative length without leaving `data_`. -/
def PostMsgToQue (fun_callbacks_ : Finset Int16) (id : Id) (logic : Chat.LogicSystem Id)
    (recvnode_ : RecvNode) : Option (Chat.LogicSystem Id) :=
  if hlen : 0 ≤ recvnode_.total_len_.toInt then
    Chat.LogicSystem.step fun_callbacks_ logic (.post ⟨id, recvnode_, hlen⟩)
  else none

def step (fun_callbacks_ : Finset Int16) (server : ChatSessions Id) :
    Event Id → Option (ChatSessions Id)
  | .Start id =>
      if id ∈ server.started then none
      else some { server with
        started := insert id server.started
        session := Function.update server.session id CSession.init.Start }
  | .read id completion =>
      if id ∈ server.started then
        (CSession.step (server.session id) completion).bind fun session =>
          ((session.posted.drop (server.session id).posted.length).foldlM
            (PostMsgToQue fun_callbacks_ id) server.logic).map fun logic =>
              { server with
                session := Function.update server.session id session
                logic := logic
                completions :=
                  Function.update server.completions id (server.completions id ++ [completion]) }
      else none
  | .logic (.post _) => none
  | .logic event =>
      (Chat.LogicSystem.step fun_callbacks_ server.logic event).map fun logic =>
        { server with logic := logic }

def callsOf (server : ChatSessions Id) (id : Id) : List (Int16 × Bytes) :=
  (server.logic.calls.filter fun call => call.session = id).map fun call =>
    (call.msg_id, call.msg_data)

end ChatSessions

end QuickChat
