import QuickChat.Common.ConPools
import QuickChat.Lib.Machine

/-!
# The wait for a Redis context, step by step

`getConnection` tests its predicate under the mutex, and lets go of the mutex and blocks in one step;
once woken it takes the mutex and tests again. `returnConnection` notifies with the mutex held, `Close`
sets the flag and notifies without it. A notification wakes who is blocked at that moment.

Callers are told apart by nothing but the point where they are, so the state counts them.
-/

namespace QuickChat

namespace RedisConPool

/-- The caller of `getConnection` that holds the mutex between two steps. -/
inductive Holder where
  /-- the predicate was false -/
  | waiting
  /-- the predicate was true, of a caller that has been woken before or of one that has not -/
  | passed (woken : Bool)
  deriving DecidableEq, Repr

inductive Closing where
  | none
  | stopped
  | notified
  deriving DecidableEq, Repr

structure WaitState (κ : Type) where
  pool : ConPool κ
  holder : Option Holder
  /-- callers that wait for the mutex and have not been blocked -/
  arriving : Nat
  /-- callers that have been blocked and wait for the mutex -/
  woken : Nat
  blocked : Nat
  closing : Closing
  /-- what `getConnection` has returned -/
  results : List (Option κ)
  deriving DecidableEq

inductive WaitEvent (κ : Type) where
  /-- `getConnection` is called -/
  | call
  /-- a caller takes the mutex and tests the predicate -/
  | test (woken : Bool)
  | block
  /-- what stands behind the wait -/
  | leave
  | spurious
  | returnConnection (context : κ)
  /-- the steps of `Close` -/
  | stop
  | notifyAll

namespace WaitState

variable {κ : Type}

def init (connections : List κ) : WaitState κ := ⟨ConPool.new connections, none, 0, 0, 0, .none, []⟩

def takeMutex (state : WaitState κ) (woken : Bool) : WaitState κ :=
  { state with
    holder := some (if predicate state.pool then .passed woken else .waiting) }

def notifyOne (state : WaitState κ) : WaitState κ :=
  if 0 < state.blocked then
    { state with blocked := state.blocked - 1, woken := state.woken + 1 }
  else state

def step (state : WaitState κ) : WaitEvent κ → Option (WaitState κ)
  | .call => some { state with arriving := state.arriving + 1 }
  | .test false =>
      if state.holder = none ∧ 0 < state.arriving then
        some (takeMutex { state with arriving := state.arriving - 1 } false)
      else none
  | .test true =>
      if state.holder = none ∧ 0 < state.woken then
        some (takeMutex { state with woken := state.woken - 1 } true)
      else none
  | .block =>
      if state.holder = some .waiting then
        some { state with holder := none, blocked := state.blocked + 1 }
      else none
  | .leave =>
      match state.holder with
      | some (.passed _) =>
          if state.pool.b_stop_ then
            some { state with holder := none, results := state.results ++ [none] }
          else
            match state.pool.connections_ with
            | [] => none
            | context :: connections_ =>
                some { state with
                  pool := { state.pool with connections_ := connections_ }
                  holder := none
                  results := state.results ++ [some context] }
      | _ => none
  | .spurious => if 0 < state.blocked then some state.notifyOne else none
  | .returnConnection context =>
      if state.holder = none then
        let returned := { state with pool := state.pool.returnConnection context }
        some (if state.pool.b_stop_ then returned else returned.notifyOne)
      else none
  | .stop =>
      if state.closing = .none then
        some { state with pool := { state.pool with b_stop_ := true }, closing := .stopped }
      else none
  | .notifyAll =>
      if state.closing = .stopped then
        some { state with
          blocked := 0
          woken := state.woken + state.blocked
          closing := .notified }
      else none

end WaitState

end RedisConPool

end QuickChat
