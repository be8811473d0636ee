import QuickChat.Chat.MsgNode
import QuickChat.Lib.Machine
import Mathlib.Data.Finset.Insert

/-!
# The worker of the chat server

`PostMsgToQue` appends to the queue under the mutex and notifies after it has let go of it, and only
when the queue was empty. `DealMsg` waits on the condition variable: it tests the predicate under the
mutex, and lets go of the mutex and blocks in one step. The destructor sets the flag and notifies
without the mutex. A notification wakes the worker if it is blocked, and is lost if it is not.

A critical section of a poster is one step, so the mutex is free between the steps unless the worker
holds it. The state also keeps the posted messages, the calls of the handlers, and the messages that
had been posted when the worker saw the flag.
-/

namespace QuickChat.Chat

/-- `AsyncReadBody` posts a node after it has read as many bytes as were announced. -/
structure LogicNode (Session : Type) where
  session_ : Session
  recvnode_ : RecvNode
  total_len_nonneg : 0 ≤ recvnode_.total_len_.toInt

structure HandlerCall (Session : Type) where
  session : Session
  msg_id : Int16
  msg_data : Bytes
  deriving DecidableEq, Repr

/-- The string is made of `data_[0, total_len_)`. -/
def LogicNode.call {Session : Type} (node : LogicNode Session) : HandlerCall Session :=
  ⟨node.session_, node.recvnode_.msg_id_, node.recvnode_.content⟩

inductive Worker where
  /-- at the head of the loop, without the mutex -/
  | lock
  | test
  /-- the predicate was false -/
  | block
  | blocked
  /-- notified, or woken for no reason, and without the mutex -/
  | woken
  /-- `wait` has returned -/
  | awake
  | dispatch
  /-- a handler has returned -/
  | popping
  /-- at the head of the loop that empties the queue -/
  | draining
  | drainPopping
  | ended
  deriving DecidableEq, Repr

def Worker.HoldsMutex : Worker → Prop
  | test | block | awake | dispatch | popping | draining | drainPopping => True
  | lock | blocked | woken | ended => False

instance (worker : Worker) : Decidable worker.HoldsMutex := by
  cases worker <;> unfold Worker.HoldsMutex <;> infer_instance

def Worker.notify : Worker → Worker
  | blocked => woken
  | worker => worker

theorem Worker.notify_ne_blocked (worker : Worker) : worker.notify ≠ blocked := by
  cases worker <;> exact nofun

theorem Worker.notify_eq (worker : Worker) :
    worker.notify = worker ∨ worker = blocked ∧ worker.notify = woken := by
  cases worker <;> first | exact .inl rfl | exact .inr ⟨rfl, rfl⟩

inductive Destructor where
  | none
  | stopped
  | notified
  | joined
  deriving DecidableEq, Repr

structure LogicSystem (Session : Type) where
  msg_que_ : List (LogicNode Session)
  b_stop_ : Bool
  worker : Worker
  destructor : Destructor
  /-- posters that have let go of the mutex and are about to notify -/
  notifying : Nat
  posted : List (LogicNode Session)
  calls : List (HandlerCall Session)
  observed : Option (List (LogicNode Session))

namespace LogicSystem

variable {Session : Type}

inductive Event (Session : Type) where
  /-- the critical section of `PostMsgToQue` -/
  | post (msg : LogicNode Session)
  /-- the `notify_one` of a poster -/
  | notify
  /-- the next step of `DealMsg` -/
  | deal
  | spurious
  /-- the steps of the destructor -/
  | stop
  | stopNotify
  | join

def init : LogicSystem Session := ⟨[], false, .lock, .none, 0, [], [], none⟩

def PostMsgToQue (state : LogicSystem Session) (msg : LogicNode Session) : LogicSystem Session :=
  let msg_que_ := state.msg_que_ ++ [msg]
  { state with
    msg_que_ := msg_que_
    notifying := if msg_que_.length = 1 then state.notifying + 1 else state.notifying
    posted := state.posted ++ [msg] }

/-- One step of the worker; `fun_callbacks_` are the identifiers that have a handler. -/
def DealMsg (fun_callbacks_ : Finset Int16) (state : LogicSystem Session) :
    Option (LogicSystem Session) :=
  match state.worker with
  | .lock => some { state with worker := .test }
  | .test =>
      if state.msg_que_ ≠ [] ∨ state.b_stop_ then some { state with worker := .awake }
      else some { state with worker := .block }
  | .block => some { state with worker := .blocked }
  | .blocked => none
  | .woken => some { state with worker := .test }
  | .awake =>
      if state.b_stop_ then
        some { state with worker := .draining, observed := some state.posted }
      else some { state with worker := .dispatch }
  | .dispatch =>
      match state.msg_que_ with
      | [] => none
      | msg_node :: msg_que_ =>
          if msg_node.recvnode_.msg_id_ ∈ fun_callbacks_ then
            some { state with worker := .popping, calls := state.calls ++ [msg_node.call] }
          else some { state with worker := .lock, msg_que_ := msg_que_ }
  | .popping => some { state with worker := .lock, msg_que_ := state.msg_que_.tail }
  | .draining =>
      match state.msg_que_ with
      | [] => some { state with worker := .ended }
      | msg_node :: msg_que_ =>
          if msg_node.recvnode_.msg_id_ ∈ fun_callbacks_ then
            some { state with worker := .drainPopping, calls := state.calls ++ [msg_node.call] }
          else some { state with msg_que_ := msg_que_ }
  | .drainPopping => some { state with worker := .draining, msg_que_ := state.msg_que_.tail }
  | .ended => none

def step (fun_callbacks_ : Finset Int16) (state : LogicSystem Session) :
    Event Session → Option (LogicSystem Session)
  | .post msg => if state.worker.HoldsMutex then none else some (state.PostMsgToQue msg)
  | .notify =>
      if state.notifying = 0 then none
      else some { state with worker := state.worker.notify, notifying := state.notifying - 1 }
  | .deal => state.DealMsg fun_callbacks_
  | .spurious => if state.worker = .blocked then some { state with worker := .woken } else none
  | .stop =>
      if state.destructor = .none then
        some { state with b_stop_ := true, destructor := .stopped }
      else none
  | .stopNotify =>
      if state.destructor = .stopped then
        some { state with worker := state.worker.notify, destructor := .notified }
      else none
  | .join =>
      if state.destructor = .notified ∧ state.worker = .ended then
        some { state with destructor := .joined }
      else none

end LogicSystem

end QuickChat.Chat
