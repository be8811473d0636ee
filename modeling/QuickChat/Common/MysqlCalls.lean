import QuickChat.Common.MysqlDao
import QuickChat.Lib.Monitor

/-!
# Calls of the data access functions

Any number of calls run interleaved over the pool of connections, with whatever results and exceptions
the server comes up with. An observer of a call keeps the connections that it has taken and put back,
the statements and result sets that it has created and not destroyed, whether an SQLException has been
raised in it, and whether its query had no rows.
-/

namespace QuickChat

open MysqlDao

inductive MysqlOp where
  | RegUser (name email pwd : Bytes)
  | CheckEmail (name email : Bytes)
  | UpdatePwd (name newpwd : Bytes)
  | CheckPwd (name pwd : Bytes)
  deriving DecidableEq, Repr

namespace MysqlOp

variable {κ : Type}

def program : MysqlOp → MysqlProgram κ Unit
  | RegUser name email pwd => do
      let _ ← MysqlDao.RegUser name email pwd
  | CheckEmail name email => do
      let _ ← MysqlDao.CheckEmail name email
  | UpdatePwd name newpwd => do
      let _ ← MysqlDao.UpdatePwd name newpwd
  | CheckPwd name pwd => do
      let _ ← MysqlDao.CheckPwd name pwd

def IsCheckEmail (op : MysqlOp) : Prop := op matches CheckEmail _ _

def IsCheckPwd (op : MysqlOp) : Prop := op matches CheckPwd _ _

end MysqlOp

structure MysqlUsage (κ : Type) where
  taken : List (Option κ)
  returned : List (Option κ)
  alive : List SqlObject
  res : ResultSet
  noRows : Bool
  raised : Bool
  /-- a connection has been put back while a statement or a result set was alive -/
  early : Bool

namespace MysqlUsage

variable {κ : Type}

def init : MysqlUsage κ := ⟨[], [], [], ⟨none, []⟩, false, false, false⟩

def take (usage : MysqlUsage κ) (con : Option κ) : MysqlUsage κ :=
  { usage with taken := usage.taken ++ [con] }

def putBack (usage : MysqlUsage κ) (con : Option κ) : MysqlUsage κ :=
  { usage with returned := usage.returned ++ [con], early := usage.early || !usage.alive.isEmpty }

def raise (usage : MysqlUsage κ) : MysqlUsage κ := { usage with raised := true }

def create (usage : MysqlUsage κ) (object : SqlObject) : MysqlUsage κ :=
  { usage with alive := object :: usage.alive }

def query (usage : MysqlUsage κ) (rows : List SqlRow) : MysqlUsage κ :=
  { usage.create .ResultSet with res := ⟨none, rows⟩, noRows := rows.isEmpty }

def destroy (usage : MysqlUsage κ) (object : SqlObject) : MysqlUsage κ :=
  { usage with alive := usage.alive.erase object }

def advance (usage : MysqlUsage κ) : MysqlUsage κ :=
  match usage.res.rows with
  | [] => { usage with res := ⟨none, []⟩ }
  | row :: rows => { usage with res := ⟨some row, rows⟩ }

/-- Reading a column raises when there is no row or the row does not have it. -/
def read (usage : MysqlUsage κ) (name : String) : MysqlUsage κ :=
  match column usage.res name with
  | .ok _ => usage
  | .error _ => usage.raise

def observe (usage : MysqlUsage κ) :
    (effect : PoolEffect (Option κ) (MysqlEffect κ)) → effect.Answer (@MysqlEffect.Reply κ) →
      MysqlUsage κ
  | .getConnection, con => usage.take con
  | .returnConnection con, _ => usage.putBack con
  | .other (.prepareStatement _ _), .ok _ => usage.create .PreparedStatement
  | .other (.createStatement _), .ok _ => usage.create .Statement
  | .other (.executeQuery _ _ _), .ok rows => usage.query rows
  | .other .next, .ok _ => usage.advance
  | .other (.getString name), .ok _ => usage.read name
  | .other (.getInt name), .ok _ => usage.read name
  | .other (.setString _ _), .ok _ => usage
  | .other (.execute _ _ _), .ok _ => usage
  | .other (.executeUpdate _ _ _), .ok _ => usage
  | .other (.prepareStatement _ _), .error _ => usage.raise
  | .other (.createStatement _), .error _ => usage.raise
  | .other (.executeQuery _ _ _), .error _ => usage.raise
  | .other .next, .error _ => usage.raise
  | .other (.getString _), .error _ => usage.raise
  | .other (.getInt _), .error _ => usage.raise
  | .other (.setString _ _), .error _ => usage.raise
  | .other (.execute _ _ _), .error _ => usage.raise
  | .other (.executeUpdate _ _ _), .error _ => usage.raise
  | .other (.destroy object), _ => usage.destroy object

end MysqlUsage

abbrev MysqlCall (κ : Type) := Monitor.Call MysqlOp (Option κ) (@MysqlEffect.Reply κ) Unit

abbrev MysqlCalls (κ : Type) := Monitor.System MysqlOp (Option κ) (@MysqlEffect.Reply κ) Unit

abbrev MysqlCallEvent (κ : Type) := Monitor.Event MysqlOp (Option κ) (@MysqlEffect.Reply κ)

def MysqlCall.usage {κ : Type} (call : MysqlCall κ) : MysqlUsage κ :=
  Monitor.usage MysqlUsage.observe MysqlUsage.init call.trace

namespace MysqlCalls

variable {κ : Type}

/-- `MySqlPool`, with the connections that its constructor has opened. -/
def init (connections : List κ) : MysqlCalls κ := Monitor.start (connections.map some)

def step : MysqlCalls κ → MysqlCallEvent κ → Option (MysqlCalls κ) :=
  Monitor.step MysqlOp.program

end MysqlCalls

end QuickChat
