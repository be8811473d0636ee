import QuickChat.Chat.MsgNode
import QuickChat.Lib.Machine

/-!
# The send queue of a chat session

Both `Send` overloads and the success branch of `HandleWrite` run under `send_lock_`, so a session
that sends is a machine whose steps are those critical sections: a call of `Send` from any thread, or
the completion of any write that is outstanding, successful or not.

The state also keeps the calls that were not dropped, and every buffer given to `async_write`.
-/

namespace QuickChat

/-- The arguments of `Send(char*, short, short)`; `msg` is the memory that the pointer points to. -/
structure SendCall where
  msg : Bytes
  max_length : Int16
  msgid : Int16
  deriving DecidableEq, Repr

def SendCall.frame (call : SendCall) : Bytes := SendNode.bytes call.msg call.max_length call.msgid

/-- The part of a `CSession` that `Send` and `HandleWrite` work on. -/
structure SendQueue where
  send_que_ : List SendNode
  b_close_ : Bool
  cleared : Bool
  outstanding : List Bytes
  written : List Bytes
  accepted : List SendCall
  failed : Bool
  poppedEmpty : Bool

namespace SendQueue

inductive Event where
  | send (msg : Bytes) (max_length msgid : Int16)
  | sendString (msg : Bytes) (msgid : Int16)
  /-- the outstanding write at `index` completes -/
  | complete (index : Nat) (error : Bool)

def init : SendQueue := ⟨[], false, false, [], [], [], false, false⟩

def async_write (queue : SendQueue) (msgnode : SendNode) : SendQueue :=
  { queue with
    outstanding := queue.outstanding ++ [msgnode.content]
    written := queue.written ++ [msgnode.content] }

/-- The body that the two overloads share: a full queue drops the call, and so does a `SendNode`
constructor that throws; only the call that finds the queue empty starts a write. -/
def emplace (queue : SendQueue) (call : SendCall) : SendQueue :=
  let send_que_size := queue.send_que_.length
  if send_que_size > MAX_SENDQUE then queue
  else
    match SendNode.new call.msg call.max_length call.msgid with
    | .error _ => queue
    | .ok (node, _) =>
        let queue := { queue with
          send_que_ := queue.send_que_ ++ [node]
          accepted := queue.accepted ++ [call] }
        if send_que_size > 0 then queue
        else
          match queue.send_que_ with
          | [] => queue
          | msgnode :: _ => queue.async_write msgnode

def Send (queue : SendQueue) (msg : Bytes) (max_length msgid : Int16) : SendQueue :=
  queue.emplace ⟨msg, max_length, msgid⟩

/-- `Send(std::string, short)`: the node is given the C string and the length cut to a short. -/
def SendString (queue : SendQueue) (msg : Bytes) (msgid : Int16) : SendQueue :=
  queue.emplace ⟨msg ++ [0], Int16.ofInt msg.length, msgid⟩

/-- `HandleWrite` pops the node that was written and writes the next one; after an error it closes
the socket and leaves the queue as it is. -/
def HandleWrite (queue : SendQueue) (error : Bool) : SendQueue :=
  if error then { queue with b_close_ := true, cleared := true, failed := true }
  else
    match queue.send_que_ with
    | [] => { queue with poppedEmpty := true }
    | _ :: send_que_ =>
        let queue := { queue with send_que_ := send_que_ }
        match send_que_ with
        | [] => queue
        | msgnode :: _ => queue.async_write msgnode

def step (queue : SendQueue) : Event → Option SendQueue
  | .send msg max_length msgid => some (queue.Send msg max_length msgid)
  | .sendString msg msgid => some (queue.SendString msg msgid)
  | .complete index error =>
      if index < queue.outstanding.length then
        some ({ queue with outstanding := queue.outstanding.eraseIdx index }.HandleWrite error)
      else none

def send (events : List Event) : Option SendQueue := Machine.run step init events

end SendQueue

end QuickChat
