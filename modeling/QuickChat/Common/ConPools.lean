import QuickChat.Lib.Waiters

/-!
# The three pools

`MySqlPool`, `RedisConPool` and `RPConPool` are three copies of one monitor: a queue of idle
connections under a mutex, and a condition variable on which `getConnection` waits. They differ in
the predicate of that wait.
-/

namespace QuickChat

/-- `connections_`, called `pool_` in `MySqlPool`. -/
structure ConPool (κ : Type) where
  connections_ : List κ
  b_stop_ : Bool
  deriving DecidableEq

inductive PoolKind where
  | MySqlPool
  | RedisConPool
  | RPConPool
  deriving DecidableEq

variable {κ : Type}

namespace MySqlPool

def predicate (pool : ConPool κ) : Bool :=
  if pool.b_stop_ then false else !pool.connections_.isEmpty

end MySqlPool

namespace RedisConPool

def predicate (pool : ConPool κ) : Bool :=
  if pool.b_stop_ then true else !pool.connections_.isEmpty

end RedisConPool

namespace RPConPool

def predicate (pool : ConPool κ) : Bool :=
  if pool.b_stop_ then true else !pool.connections_.isEmpty

end RPConPool

def PoolKind.predicate : PoolKind → ConPool κ → Bool
  | .MySqlPool => QuickChat.MySqlPool.predicate
  | .RedisConPool => QuickChat.RedisConPool.predicate
  | .RPConPool => QuickChat.RPConPool.predicate

namespace ConPool

def new (connections : List κ) : ConPool κ := ⟨connections, false⟩

/-- One test of the waiting caller, and what it does when the test succeeds. The first component of
the answer is `none` for the null pointer. -/
def getConnection (predicate : ConPool κ → Bool) (pool : ConPool κ) :
    Option (Option κ × ConPool κ) :=
  if predicate pool then
    if pool.b_stop_ then
      some (none, pool)
    else
      match pool.connections_ with
      | [] => none
      | context :: connections => some (some context, { pool with connections_ := connections })
  else
    none

def returnConnection (pool : ConPool κ) (context : κ) : ConPool κ :=
  if pool.b_stop_ then pool
  else { pool with connections_ := pool.connections_ ++ [context] }

/-- `RedisConPool` joins its checking thread afterwards, with the flag set and the waiters woken. -/
def Close (pool : ConPool κ) : ConPool κ := { pool with b_stop_ := true }

end ConPool

inductive PoolOp (κ : Type) where
  | returnConnection (context : κ)
  | Close

def PoolOp.perform (pool : ConPool κ) : PoolOp κ → ConPool κ
  | returnConnection context => pool.returnConnection context
  | Close => pool.Close

abbrev PoolCallers (κ : Type) := Waiters.System (ConPool κ) (Option κ)

abbrev PoolEvent (κ : Type) := Waiters.Event (PoolOp κ)

def PoolKind.advance (kind : PoolKind) : PoolCallers κ → PoolEvent κ → PoolCallers κ :=
  Waiters.advance (ConPool.getConnection kind.predicate) PoolOp.perform

def PoolKind.run (kind : PoolKind) : PoolCallers κ → List (PoolEvent κ) → PoolCallers κ :=
  Waiters.run (ConPool.getConnection kind.predicate) PoolOp.perform

/-! ### What a pool is for -/

/-- A pool hands out its idle connections in order; once it is stopped it answers everybody, with
nothing. -/
inductive AbstractPool (κ : Type) where
  | running (idle : List κ)
  | stopped

namespace AbstractPool

def take : AbstractPool κ → Option (Option κ × AbstractPool κ)
  | running [] => none
  | running (connection :: idle) => some (some connection, running idle)
  | stopped => some (none, stopped)

def perform : AbstractPool κ → PoolOp κ → AbstractPool κ
  | running idle, .returnConnection connection => running (idle ++ [connection])
  | running _, .Close => stopped
  | stopped, _ => stopped

def run : Waiters.System (AbstractPool κ) (Option κ) → List (PoolEvent κ) →
    Waiters.System (AbstractPool κ) (Option κ) :=
  Waiters.run take perform

end AbstractPool

end QuickChat
