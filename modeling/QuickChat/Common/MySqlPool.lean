import QuickChat.Common.MysqlDao
import QuickChat.Lib.Sweep

/-!
# The check of the MySQL connections

`checkConnection` goes once around `pool_` with the mutex held. The `Defer` of a turn puts its
connection back however the turn is left, also by an exception out of the `catch` block, which leaves
the function. The connector may raise an SQLException wherever it is called.
-/

namespace QuickChat

/-- `object` tells the objects of the pool apart. -/
structure SqlConnection (ο κ : Type) where
  object : ο
  con_ : κ
  last_oper_time_ : Int
  deriving DecidableEq

inductive CheckEffect (κ : Type) where
  /-- the seconds of the system clock -/
  | now
  | createStatement (con : κ)
  | executeQuery (con : κ) (sql : String)
  | connect
  | setSchema (con : κ)
  /-- the front of an empty queue -/
  | emptyFront

def CheckEffect.Reply {κ : Type} : CheckEffect κ → Type
  | now => Int
  | createStatement _ => Except SQLException Unit
  | executeQuery _ _ => Except SQLException Unit
  | connect => Except SQLException κ
  | setSchema _ => Except SQLException Unit
  | emptyFront => Empty

abbrev CheckProgram (κ : Type) (α : Type) := Program (CheckEffect κ) CheckEffect.Reply α

abbrev CheckTry (κ : Type) (α : Type) := ExceptT SQLException (CheckProgram κ) α

abbrev CheckTrace (κ : Type) := List ((effect : CheckEffect κ) × effect.Reply)

namespace MySqlPool

variable {ο κ : Type}

def now : CheckProgram κ Int := Program.perform CheckEffect.now

def createStatement (con : κ) : CheckTry κ Unit :=
  ExceptT.mk (Program.perform (CheckEffect.createStatement con))

def executeQuery (con : κ) (sql : String) : CheckTry κ Unit :=
  ExceptT.mk (Program.perform (CheckEffect.executeQuery con sql))

def connect : CheckTry κ κ := ExceptT.mk (Program.perform CheckEffect.connect)

def setSchema (con : κ) : CheckTry κ Unit :=
  ExceptT.mk (Program.perform (CheckEffect.setSchema con))

def emptyFront {α : Type} : CheckProgram κ α := Program.call CheckEffect.emptyFront Empty.elim

/-- The `try` block up to its assignment. -/
def ask (con : κ) : CheckTry κ Unit := do
  createStatement con
  executeQuery con "SELECT 1"

/-- The `catch` block up to its assignments. -/
def reopen : CheckTry κ κ := do
  let newcon ← connect
  setSchema newcon
  return newcon

/-- One turn of the loop: the connection that the `Defer` puts back, and the exception that leaves
it. -/
def checkOne (timestamp : Int) (con : SqlConnection ο κ) :
    CheckProgram κ (Option (SqlConnection ο κ) × Option SQLException) := do
  if timestamp - con.last_oper_time_ < 5 then
    return (some con, none)
  match ← (ask con.con_).run with
  | .ok _ => return (some { con with last_oper_time_ := timestamp }, none)
  | .error _ =>
      match ← reopen.run with
      | .ok newcon => return (some { con with con_ := newcon, last_oper_time_ := timestamp }, none)
      | .error e => return (some con, some e)

/-- `pool_` afterwards, and the exception that leaves the function. -/
def checkConnection (pool_ : List (SqlConnection ο κ)) :
    CheckProgram κ (List (SqlConnection ο κ) × Option SQLException) := do
  let poolsize := pool_.length
  let timestamp ← now
  Sweep.loop (return true) (checkOne timestamp) emptyFront poolsize pool_

end MySqlPool

end QuickChat
