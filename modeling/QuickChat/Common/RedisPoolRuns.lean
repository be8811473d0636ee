import QuickChat.Common.RedisConPool

/-!
# The runs of the Redis pool

A run begins where the constructor has started the thread of the check. Callers take contexts and put
them back, the thread checks the pool, and `Close` sets the flag and joins the thread: once out of
`main`, and once more out of `~RedisMgr`. The operations under the mutex are single steps. The flag is
set without the mutex, so it may be set while a check is going on; its store is then counted as made
when the check has ended.

Every call of `redisConnect` that does not fail gives a context of its own.
-/

namespace QuickChat

namespace RedisConPool

/-- What `redisConnect` has given in a trace, with or without an error. -/
def obtainedIn {κ : Type} (trace : RedisPoolTrace κ) : List κ :=
  trace.flatMap fun
    | ⟨.redisConnect, some (context, _)⟩ => [context]
    | _ => []

def freedIn {κ : Type} (trace : RedisPoolTrace κ) : List κ :=
  trace.flatMap fun
    | ⟨.redisFree context, _⟩ => [context]
    | _ => []

def loadedIn {κ : Type} (trace : RedisPoolTrace κ) : List Bool :=
  trace.flatMap fun
    | ⟨.load_b_stop_, stopped⟩ => [stopped]
    | _ => []

structure RunState (κ : Type) where
  pool : ConPool κ
  /-- the loop of `check_thread_` has ended -/
  exited : Bool
  joinable : Bool
  /-- for each `Close`, whether its `join` has returned rather than raised -/
  joins : List Bool
  obtained : List κ
  /-- by callers of `getConnection` -/
  held : List κ
  freed : List κ

variable {κ : Type} [DecidableEq κ]

inductive Starts (poolSize : Nat) (pwd_ : Option Bytes) : RunState κ → Prop where
  | new {trace : RedisPoolTrace κ} {pool : ConPool κ}
      (hnew : (new poolSize pwd_).run.Ends trace (some (.ok pool)))
      (hfresh : (obtainedIn trace).Nodup) :
      Starts poolSize pwd_ ⟨pool, false, true, [], obtainedIn trace, [], freedIn trace⟩

inductive Step (pwd_ : Option Bytes) : RunState κ → RunState κ → Prop where
  | getConnection {state : RunState κ} {context : κ} {pool : ConPool κ}
      (htake : state.pool.getConnection predicate = some (some context, pool)) :
      Step pwd_ state { state with pool := pool, held := context :: state.held }
  | returnConnection {state : RunState κ} {context : κ} (hheld : context ∈ state.held) :
      Step pwd_ state
        { state with
          pool := state.pool.returnConnection context
          held := state.held.erase context }
  | checkThread {state : RunState κ} {trace : RedisPoolTrace κ} {connections_ : List κ}
      (hthread : state.exited = false)
      (hcheck : (RedisConPool.checkThread pwd_ state.pool.connections_).Ends trace
        (some (connections_, none)))
      (hstop : state.pool.b_stop_ = true → false ∉ loadedIn trace)
      (hfresh : (state.obtained ++ obtainedIn trace).Nodup) :
      Step pwd_ state
        { state with
          pool := ⟨connections_, state.pool.b_stop_ || (loadedIn trace).contains true⟩
          obtained := state.obtained ++ obtainedIn trace
          freed := state.freed ++ freedIn trace }
  | exit {state : RunState κ} (hstop : state.pool.b_stop_ = true) :
      Step pwd_ state { state with exited := true }
  /-- the first part of `Close` -/
  | stop {state : RunState κ} : Step pwd_ state { state with pool := state.pool.Close }
  | join {state : RunState κ} (hstop : state.pool.b_stop_ = true) (hjoinable : state.joinable = true)
      (hexited : state.exited = true) :
      Step pwd_ state { state with joinable := false, joins := state.joins ++ [true] }
  /-- a thread that has been joined cannot be joined again -/
  | joinAgain {state : RunState κ} (hstop : state.pool.b_stop_ = true)
      (hjoinable : state.joinable = false) :
      Step pwd_ state { state with joins := state.joins ++ [false] }

structure Run (poolSize : Nat) (pwd_ : Option Bytes) (first : RunState κ) (rest : List (RunState κ)) :
    Prop where
  starts : Starts poolSize pwd_ first
  steps : (first :: rest).IsChain (Step pwd_)

def Complete (first : RunState κ) (rest : List (RunState κ)) : Prop :=
  ((first :: rest).getLast (List.cons_ne_nil _ _)).joins.length = 2

/-- Each context is idle, held or freed. -/
def Accounted (state : RunState κ) : Prop :=
  ∀ context ∈ state.obtained,
    (state.pool.connections_ ++ (state.held ++ state.freed)).count context = 1

/-- The ledger of a run: every context in one place at every moment, freed once in the end, and every
`join` returns. -/
structure Ledger (first : RunState κ) (rest : List (RunState κ)) : Prop where
  accounted : ∀ state ∈ first :: rest, Accounted state
  freedOnce : ∀ context ∈ ((first :: rest).getLast (List.cons_ne_nil _ _)).obtained,
    ((first :: rest).getLast (List.cons_ne_nil _ _)).freed.count context = 1
  joined : ∀ state ∈ first :: rest, false ∉ state.joins

end RedisConPool

end QuickChat
