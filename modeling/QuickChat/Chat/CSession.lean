import QuickChat.Chat.MsgNode
import QuickChat.Lib.Machine

/-!
# The read loop of a chat session

`AsyncReadHead` and `AsyncReadBody` read through `asyncReadFull`, which clears `data_` and asks
`async_read_some` for the rest of what is wanted until it has it all. Between completions the session
only waits, so the loop is a machine: its state holds the outstanding `async_read_some`, and a
completion runs the callbacks up to the next one.

The state also keeps what the loop has done so far: the messages posted to `LogicSystem`, whether it
closed the socket and cleared the session from the server, and every access it made to a buffer.
-/

namespace QuickChat

open Memory

inductive Access where
  /-- a region of `data_` handed to `async_read_some` -/
  | readSome (span : Span)
  /-- the block of a `RecvNode`, and the length that the header announced -/
  | allocate (msg_len : Int16) (size : Nat)
  | write (span : Span)
  | read (span : Span)
  | nullNode
  deriving DecidableEq

/-- The region or bytes lie in the block, and a node's block has the announced length plus one. -/
def Access.InRange : Access → Prop
  | readSome span => span.InRange
  | allocate msg_len size => (size : Int) = msg_len.toInt + 1 ∧ 1 ≤ size
  | write span => span.InRange
  | read span => span.InRange
  | nullNode => False

instance (access : Access) : Decidable access.InRange := by
  cases access <;> unfold Access.InRange <;> infer_instance

/-- The callback that `asyncReadFull` is given, with the length it captures. -/
inductive Handler where
  | head
  | body (total_len : Int)
  deriving DecidableEq, Repr

structure ReadOp where
  handler : Handler
  read_len : Nat
  total_len : Nat
  deriving DecidableEq, Repr

def ReadOp.requested (op : ReadOp) : Nat := size_t ((op.total_len : Int) - op.read_len)

/-- The part of a `CSession` that its read loop works on. -/
structure CSession where
  data_ : Bytes
  recv_head_node_ : MsgNode
  recv_msg_node_ : Option RecvNode
  b_close_ : Bool
  pending : Option ReadOp
  posted : List RecvNode
  cleared : Bool
  accesses : List Access

/-- How an `async_read_some` completes: with bytes, or with an error code. -/
inductive Completion where
  | ok (chunk : Bytes)
  | error
  deriving DecidableEq

namespace CSession

def log (session : CSession) (accesses : List Access) : CSession :=
  { session with accesses := session.accesses ++ accesses }

def Close (session : CSession) : CSession := { session with b_close_ := true }

def ClearSession (session : CSession) : CSession := { session with cleared := true }

def PostMsgToQue (session : CSession) (node : RecvNode) : CSession :=
  { session with posted := session.posted ++ [node] }

def asyncReadLen (session : CSession) (handler : Handler) (read_len total_len : Nat) : CSession :=
  let op : ReadOp := ⟨handler, read_len, total_len⟩
  { session.log [.readSome ⟨MAX_LENGTH, read_len, op.requested⟩] with pending := some op }

def asyncReadFull (session : CSession) (handler : Handler) (maxLength : Nat) : CSession :=
  asyncReadLen
    { session.log [.write ⟨MAX_LENGTH, 0, MAX_LENGTH⟩] with data_ := List.replicate MAX_LENGTH 0 }
    handler 0 maxLength

def AsyncReadHead (session : CSession) : CSession :=
  session.asyncReadFull .head (size_t HEAD_TOTAL_LEN)

def AsyncReadBody (session : CSession) (total_len : Int) : CSession :=
  session.asyncReadFull (.body total_len) (size_t total_len)

def Start (session : CSession) : CSession := session.AsyncReadHead

def onBody (session : CSession) (total_len : Int) (ec : Bool) (bytes_transfered : Nat) : CSession :=
  if ec then session.Close.ClearSession
  else if bytes_transfered < size_t total_len then session.Close.ClearSession
  else
    match session.recv_msg_node_ with
    | none => session.log [.nullNode]
    | some node =>
        let size := node.data_.length
        let filled := (node.fill session.data_ bytes_transfered).terminate
        let received : RecvNode :=
          { node with
            toMsgNode := { filled with
              cur_len_ := Int16.ofInt (node.cur_len_.toInt + bytes_transfered) } }
        let session := session.log [.read ⟨MAX_LENGTH, 0, bytes_transfered⟩,
          .write ⟨size, 0, bytes_transfered⟩, .write ⟨size, node.total_len_.toInt, 1⟩]
        ({ session with recv_msg_node_ := some received }.PostMsgToQue received).AsyncReadHead

/-- The callback of `AsyncReadHead`. An identifier above `MAX_LENGTH` is reported and nothing else; a
length above it ends the loop, and so does a `RecvNode` constructor that throws, since the `catch`
around the callback reads no further. -/
def onHead (session : CSession) (ec : Bool) (bytes_transfered : Nat) : CSession :=
  if ec then session.Close.ClearSession
  else if bytes_transfered < HEAD_TOTAL_LEN then session.Close.ClearSession
  else
    let size := session.recv_head_node_.data_.length
    let head := session.recv_head_node_.Clear.fill session.data_ bytes_transfered
    let session := { session.log [.write ⟨size, 0, size_t session.recv_head_node_.total_len_.toInt⟩,
        .read ⟨MAX_LENGTH, 0, bytes_transfered⟩, .write ⟨size, 0, bytes_transfered⟩,
        .read ⟨size, 0, HEAD_ID_LEN⟩, .read ⟨size, HEAD_ID_LEN, HEAD_DATA_LEN⟩]
      with recv_head_node_ := head }
    let msg_id := swap (loadShort head.data_ 0)
    let msg_len := swap (loadShort head.data_ HEAD_ID_LEN)
    if msg_len.toInt > MAX_LENGTH then session.ClearSession
    else
      match RecvNode.new msg_len msg_id with
      | .error _ => session
      | .ok (node, writes) =>
          let session := session.log (.allocate msg_len node.data_.length :: writes.map .write)
          { session with recv_msg_node_ := some node }.AsyncReadBody msg_len.toInt

def callback (session : CSession) (handler : Handler) (ec : Bool) (bytes_transfered : Nat) :
    CSession :=
  match handler with
  | .head => session.onHead ec bytes_transfered
  | .body total_len => session.onBody total_len ec bytes_transfered

/-- A read of nothing completes at once with nothing, any other with an error or with between one
byte and as many as were asked for. -/
def Legal (op : ReadOp) : Completion → Prop
  | .ok chunk => chunk.length ≤ op.requested ∧ (chunk = [] → op.requested = 0)
  | .error => op.requested ≠ 0

instance (op : ReadOp) (completion : Completion) : Decidable (Legal op completion) := by
  cases completion <;> unfold Legal <;> infer_instance

def onReadSome (session : CSession) (op : ReadOp) : Completion → CSession
  | .error => session.callback op.handler true op.read_len
  | .ok chunk =>
      let session := { session with data_ := store session.data_ op.read_len chunk }
      if op.read_len + chunk.length ≥ op.total_len then
        session.callback op.handler false (op.read_len + chunk.length)
      else session.asyncReadLen op.handler (op.read_len + chunk.length) op.total_len

/-- One completion: it needs an outstanding read that can complete so. -/
def step (session : CSession) (completion : Completion) : Option CSession :=
  match session.pending with
  | none => none
  | some op =>
      if Legal op completion then
        some ({ session with pending := none }.onReadSome op completion)
      else none

/-- The constructor: the header node has room for `HEAD_TOTAL_LEN` bytes. -/
def init : CSession where
  data_ := List.replicate MAX_LENGTH 0
  recv_head_node_ := ⟨0, 4, List.replicate 5 0, by decide⟩
  recv_msg_node_ := none
  b_close_ := false
  pending := none
  posted := []
  cleared := false
  accesses := []

def read (completions : List Completion) : Option CSession :=
  Machine.run step init.Start completions

end CSession

def received (completions : List Completion) : Bytes :=
  (completions.map fun
    | .ok chunk => chunk
    | .error => []).flatten

end QuickChat
