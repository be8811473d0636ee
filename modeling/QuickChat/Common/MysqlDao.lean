import QuickChat.Lib.Pool
import QuickChat.Lib.Text

/-!
# The statements of MysqlDao

Each function of the data access object is a program over the pool of connections whose own effects
are the operations of the connector. Any of them but the destructors may raise an SQLException, which
leaves the `try` block: the objects created in it are destroyed on the way out, after whatever the
block has done, and the handler runs.

A prepared statement and a result set live on the client's side, so the parameters of the one and the
rows of the other are kept by the program; only executing a statement asks the server.
-/

namespace QuickChat

open Text

inductive SQLException where
  | raised
  deriving DecidableEq, Repr

inductive SqlValue where
  | int (n : Int)
  | string (s : Bytes)
  deriving DecidableEq, Repr

abbrev SqlRow := List (String × SqlValue)

inductive SqlObject where
  | PreparedStatement
  | Statement
  | ResultSet
  deriving DecidableEq, Repr

inductive MysqlEffect (κ : Type) where
  | prepareStatement (con : Option κ) (sql : String)
  | createStatement (con : Option κ)
  | setString (index : Nat) (value : Bytes)
  | execute (con : Option κ) (sql : String) (params : Nat → Bytes)
  | executeUpdate (con : Option κ) (sql : String) (params : Nat → Bytes)
  | executeQuery (con : Option κ) (sql : String) (params : Nat → Bytes)
  | next
  | getString (column : String)
  | getInt (column : String)
  | destroy (object : SqlObject)

def MysqlEffect.Reply {κ : Type} : MysqlEffect κ → Type
  | executeUpdate _ _ _ => Except SQLException Int
  | executeQuery _ _ _ => Except SQLException (List SqlRow)
  | destroy _ => Unit
  | _ => Except SQLException Unit

abbrev MysqlProgram (κ : Type) (α : Type) := PoolProgram (Option κ) (@MysqlEffect.Reply κ) α

abbrev MysqlTry (κ : Type) (α : Type) := ExceptT SQLException (MysqlProgram κ) α

structure PreparedStatement (κ : Type) where
  con : Option κ
  sql : String
  params : Nat → Bytes

structure ResultSet where
  current : Option SqlRow
  rows : List SqlRow

structure UserInfo where
  name : Bytes
  pwd : Bytes
  uid : Int
  email : Bytes
  deriving DecidableEq, Repr

namespace MysqlDao

variable {κ α : Type}

def getConnection : MysqlProgram κ (Option κ) := Program.perform PoolEffect.getConnection

def returnConnection (con : Option κ) : MysqlProgram κ Unit :=
  Program.perform (PoolEffect.returnConnection con)

/-- `try`, with the body of the handler for SQLException. -/
def tryCatch (block : MysqlTry κ α) (handler : MysqlProgram κ α) : MysqlProgram κ α := do
  match ← block.run with
  | .ok value => return value
  | .error _ => handler

/-- What follows the declaration of an object in its block. -/
def owning (object : SqlObject) (block : MysqlTry κ α) : MysqlTry κ α :=
  ExceptT.mk do
    let result ← block.run
    let _ : Unit ← Program.perform (PoolEffect.other (MysqlEffect.destroy object))
    return result

def prepareStatement (con : Option κ) (sql : String) : MysqlTry κ (PreparedStatement κ) := do
  ExceptT.mk (Program.perform (PoolEffect.other (MysqlEffect.prepareStatement con sql)))
  return ⟨con, sql, fun _ => []⟩

def createStatement (con : Option κ) : MysqlTry κ Unit :=
  ExceptT.mk (Program.perform (PoolEffect.other (MysqlEffect.createStatement con)))

def setString (stmt : PreparedStatement κ) (index : Nat) (value : Bytes) :
    MysqlTry κ (PreparedStatement κ) := do
  ExceptT.mk (Program.perform (PoolEffect.other (MysqlEffect.setString index value)))
  return { stmt with params := Function.update stmt.params index value }

def execute (stmt : PreparedStatement κ) : MysqlTry κ Unit :=
  ExceptT.mk (Program.perform (PoolEffect.other
    (MysqlEffect.execute stmt.con stmt.sql stmt.params)))

def executeUpdate (stmt : PreparedStatement κ) : MysqlTry κ Int :=
  ExceptT.mk (Program.perform (PoolEffect.other
    (MysqlEffect.executeUpdate stmt.con stmt.sql stmt.params)))

def executeQuery (con : Option κ) (sql : String) (params : Nat → Bytes) : MysqlTry κ ResultSet := do
  let rows : List SqlRow ←
    ExceptT.mk (Program.perform (PoolEffect.other (MysqlEffect.executeQuery con sql params)))
  return ⟨none, rows⟩

def next (res : ResultSet) : MysqlTry κ (Bool × ResultSet) := do
  ExceptT.mk (Program.perform (PoolEffect.other MysqlEffect.next))
  match res.rows with
  | [] => return (false, ⟨none, []⟩)
  | row :: rows => return (true, ⟨some row, rows⟩)

/-- The value of a column of the current row; it raises when there is none. -/
def column (res : ResultSet) (name : String) : Except SQLException SqlValue :=
  match res.current.bind (List.lookup name) with
  | none => .error .raised
  | some value => .ok value

def getString (res : ResultSet) (name : String) : MysqlTry κ Bytes := do
  ExceptT.mk (Program.perform (PoolEffect.other (MysqlEffect.getString name)))
  match ← ExceptT.mk (pure (column res name)) with
  | .string s => return s
  | .int n => return to_string n

def getInt (res : ResultSet) (name : String) : MysqlTry κ Int := do
  ExceptT.mk (Program.perform (PoolEffect.other (MysqlEffect.getInt name)))
  match ← ExceptT.mk (pure (column res name)) with
  | .string s => return (stoi s).toOption.getD 0
  | .int n => return n

def RegUser (name email pwd : Bytes) : MysqlProgram κ Int := do
  let con ← getConnection
  tryCatch (do
    if con.isNone then
      return 0
    let stmt ← prepareStatement con "CALL reg_user(?,?,?,@result)"
    owning .PreparedStatement do
      let stmt ← setString stmt 1 name
      let stmt ← setString stmt 2 email
      let stmt ← setString stmt 3 pwd
      execute stmt
      createStatement con
      owning .Statement do
        let res ← executeQuery con "SELECT @result AS result" fun _ => []
        owning .ResultSet do
          let (more, res) ← next res
          if more then
            let result ← getInt res "result"
            returnConnection con
            return result
          returnConnection con
          return -1)
    (do
      returnConnection con
      return -1)

/-- The loop over the rows returns in its first turn; without a row the `try` block is left at its
end, and the connection goes with the function. -/
def CheckEmail (name email : Bytes) : MysqlProgram κ Bool := do
  let con ← getConnection
  tryCatch (do
    if con.isNone then
      returnConnection con
      return false
    let pstmt ← prepareStatement con "SELECT email FROM user WHERE name = ?"
    owning .PreparedStatement do
      let pstmt ← setString pstmt 1 name
      let res ← executeQuery con pstmt.sql pstmt.params
      owning .ResultSet do
        let (more, res) ← next res
        if more then
          let _ ← getString res "email"
          let stored ← getString res "email"
          if email ≠ stored then
            returnConnection con
            return false
          returnConnection con
          return true
        return true)
    (do
      returnConnection con
      return false)

/-- The number of rows that were updated is printed and not looked at. -/
def UpdatePwd (name newpwd : Bytes) : MysqlProgram κ Bool := do
  let con ← getConnection
  tryCatch (do
    if con.isNone then
      returnConnection con
      return false
    let pstmt ← prepareStatement con "UPDATE user SET pwd = ? WHERE name = ?"
    owning .PreparedStatement do
      let pstmt ← setString pstmt 2 name
      let pstmt ← setString pstmt 1 newpwd
      let _ ← executeUpdate pstmt
      returnConnection con
      return true)
    (do
      returnConnection con
      return false)

/-- The `Defer` returns the connection when the function is left, after the objects of the `try` block
are gone. `userInfo` is returned when the call succeeds; what a failed call has written to it by then
is not kept. -/
def CheckPwd (name pwd : Bytes) : MysqlProgram κ (Option UserInfo) := do
  let con ← getConnection
  let userInfo ← tryCatch (do
    if con.isNone then
      return none
    let pstmt ← prepareStatement con "SELECT * FROM user WHERE name = ?"
    owning .PreparedStatement do
      let pstmt ← setString pstmt 1 name
      let res ← executeQuery con pstmt.sql pstmt.params
      owning .ResultSet do
        let (more, res) ← next res
        let origin_pwd ← if more then getString res "pwd" else pure []
        if pwd ≠ origin_pwd then
          return none
        let email ← getString res "email"
        let uid ← getInt res "uid"
        return some ⟨name, origin_pwd, uid, email⟩)
    (return none)
  returnConnection con
  return userInfo

end MysqlDao

end QuickChat
