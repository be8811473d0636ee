import QuickChat.Lib.Machine

/-!
# The pool of io contexts

Each context of `AsioIOServicePool` has a thread that runs it and a work that keeps it running. `Stop`
goes through the works, stops the context of each and resets it, and then joins the threads. It is
called by the signal handler of the chat server and by the destructor, one call after the other.

`io_context::run` returns once its context is stopped, or no work keeps it running; the handlers that it
executes until then return, and are not seen here. `join` waits until the thread has ended. To call
through a `WorkPtr` that is reset has no meaning, and `join` throws for a thread that is not joinable;
the run is over there.
-/

namespace QuickChat

structure IOService where
  stopped : Bool
  deriving DecidableEq, Repr

/-- Null, or a work on the context at an index. -/
abbrev WorkPtr := Option Nat

/-- A thread that runs the context at an index. -/
structure IOThread where
  service : Nat
  joinable : Bool
  ended : Bool
  deriving DecidableEq, Repr

structure AsioIOServicePool where
  ioServices_ : List IOService
  works_ : List WorkPtr
  threads_ : List IOThread
  nextIOService_ : Nat
  deriving DecidableEq, Repr

namespace AsioIOServicePool

def new (size : Nat) : AsioIOServicePool where
  ioServices_ := List.replicate size ⟨false⟩
  works_ := (List.range size).map some
  threads_ := (List.range size).map fun i => ⟨i, true, false⟩
  nextIOService_ := 0

/-- The index of the context that is given, if there is one at it. -/
def GetIOService (pool : AsioIOServicePool) : Option (Nat × AsioIOServicePool) :=
  if pool.nextIOService_ < pool.ioServices_.length then
    let next := pool.nextIOService_ + 1
    some (pool.nextIOService_,
      { pool with nextIOService_ := if next = pool.ioServices_.length then 0 else next })
  else none

def stopService (pool : AsioIOServicePool) (service : Nat) : AsioIOServicePool :=
  { pool with ioServices_ := pool.ioServices_.set service ⟨true⟩ }

def resetWork (pool : AsioIOServicePool) (i : Nat) : AsioIOServicePool :=
  { pool with works_ := pool.works_.set i none }

def setThread (pool : AsioIOServicePool) (i : Nat) (thread : IOThread) : AsioIOServicePool :=
  { pool with threads_ := pool.threads_.set i thread }

/-- `run()` of the context can return. -/
def RunReturns (pool : AsioIOServicePool) (service : Nat) : Prop :=
  pool.ioServices_[service]? = some ⟨true⟩ ∨ some service ∉ pool.works_

instance (pool : AsioIOServicePool) (service : Nat) : Decidable (pool.RunReturns service) :=
  inferInstanceAs (Decidable (_ ∨ _))

/-! ### Calls of Stop -/

/-- Where a call of `Stop` is: in the loop over `works_`, before the context of an entry is stopped or
before the entry is reset, or in the loop over `threads_`. -/
inductive StopPoint where
  | stop (i : Nat)
  | reset (i : Nat)
  | join (i : Nat)
  deriving DecidableEq, Repr

inductive StopFault where
  | nullWork
  | notJoinable
  deriving DecidableEq, Repr

structure Shutdown where
  pool : AsioIOServicePool
  /-- the calls that are still to be made -/
  calls : Nat
  caller : Option StopPoint
  fault : Option StopFault
  /-- the threads that have been joined -/
  joined : List Nat
  deriving DecidableEq, Repr

inductive ShutdownEvent where
  | caller
  | thread (i : Nat)

namespace Shutdown

def start (size calls : Nat) : Shutdown := ⟨new size, calls, none, none, []⟩

def stepCaller (state : Shutdown) : Option Shutdown :=
  match state.caller with
  | none =>
      if 0 < state.calls then
        some { state with calls := state.calls - 1, caller := some (.stop 0) }
      else none
  | some (.stop i) =>
      match state.pool.works_[i]? with
      | none => some { state with caller := some (.join 0) }
      | some none => some { state with fault := some .nullWork }
      | some (some service) =>
          some { state with pool := state.pool.stopService service, caller := some (.reset i) }
  | some (.reset i) =>
      some { state with pool := state.pool.resetWork i, caller := some (.stop (i + 1)) }
  | some (.join i) =>
      match state.pool.threads_[i]? with
      | none => some { state with caller := none }
      | some thread =>
          if thread.joinable = false then
            some { state with fault := some .notJoinable }
          else if thread.ended then
            some { state with
              pool := state.pool.setThread i { thread with joinable := false }
              caller := some (.join (i + 1))
              joined := state.joined ++ [i] }
          else none

def stepThread (state : Shutdown) (i : Nat) : Option Shutdown :=
  match state.pool.threads_[i]? with
  | none => none
  | some thread =>
      if thread.ended = false ∧ state.pool.RunReturns thread.service then
        some { state with pool := state.pool.setThread i { thread with ended := true } }
      else none

def step (state : Shutdown) : ShutdownEvent → Option Shutdown
  | .caller => if state.fault.isSome then none else state.stepCaller
  | .thread i => if state.fault.isSome then none else state.stepThread i

def Finished (state : Shutdown) : Prop := state.calls = 0 ∧ state.caller = none

instance (state : Shutdown) : Decidable state.Finished := inferInstanceAs (Decidable (_ ∧ _))

end Shutdown

end AsioIOServicePool

end QuickChat
