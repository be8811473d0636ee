import QuickChat.Common.MysqlDao

/-!
# The user table

A MySQL server with the one table `user`, the session variable `@result`, and the stored procedure
`reg_user`, which is not in the repository and so is any function of the table and its arguments.
Names and emails are compared byte for byte.

`faults` says which of the coming operations raise an SQLException: the first entry is about the next
operation, and none raises when the list has come to its end. An operation that raises has no effect.
-/

namespace QuickChat

open Text

structure UserRow where
  uid : Int
  name : Bytes
  email : Bytes
  pwd : Bytes
  deriving DecidableEq, Repr

/-- `reg_user(name, email, pwd, @result)`: the result and the table it leaves. -/
abbrev RegUserProcedure := List UserRow → Bytes → Bytes → Bytes → Int × List UserRow

structure Mysql where
  user : List UserRow
  result : Int
  faults : List Bool

namespace Mysql

def execute (reg_user : RegUserProcedure) (db : Mysql) (sql : String) (params : Nat → Bytes) :
    Except SQLException Unit × Mysql :=
  if sql = "CALL reg_user(?,?,?,@result)" then
    let (result, user) := reg_user db.user (params 1) (params 2) (params 3)
    (.ok (), { db with user := user, result := result })
  else (.error .raised, db)

def executeUpdate (db : Mysql) (sql : String) (params : Nat → Bytes) :
    Except SQLException Int × Mysql :=
  if sql = "UPDATE user SET pwd = ? WHERE name = ?" then
    (.ok (db.user.countP (·.name = params 2)),
      { db with user := db.user.map fun row =>
        if row.name = params 2 then { row with pwd := params 1 } else row })
  else (.error .raised, db)

def executeQuery (db : Mysql) (sql : String) (params : Nat → Bytes) :
    Except SQLException (List SqlRow) × Mysql :=
  if sql = "SELECT @result AS result" then (.ok [[("result", .int db.result)]], db)
  else if sql = "SELECT email FROM user WHERE name = ?" then
    (.ok ((db.user.filter (·.name = params 1)).map fun row => [("email", .string row.email)]), db)
  else if sql = "SELECT * FROM user WHERE name = ?" then
    (.ok ((db.user.filter (·.name = params 1)).map fun row =>
      [("uid", .int row.uid), ("name", .string row.name), ("email", .string row.email),
        ("pwd", .string row.pwd)]), db)
  else (.error .raised, db)

def attempt {α : Type} (operation : Mysql → Except SQLException α × Mysql) :
    StateM Mysql (Except SQLException α) := fun db =>
  match db.faults with
  | [] => operation db
  | true :: faults => (.error .raised, { db with faults := faults })
  | false :: faults => operation { db with faults := faults }

def serve (reg_user : RegUserProcedure) : (effect : PoolEffect (Option Unit) (MysqlEffect Unit)) →
    StateM Mysql (effect.Answer (@MysqlEffect.Reply Unit))
  | .getConnection => pure (some ())
  | .returnConnection _ => pure ⟨⟩
  | .other (.execute _ sql params) => attempt fun db => db.execute reg_user sql params
  | .other (.executeUpdate _ sql params) => attempt fun db => db.executeUpdate sql params
  | .other (.executeQuery _ sql params) => attempt fun db => db.executeQuery sql params
  | .other (.prepareStatement _ _) => attempt fun db => (.ok (), db)
  | .other (.createStatement _) => attempt fun db => (.ok (), db)
  | .other (.setString _ _) => attempt fun db => (.ok (), db)
  | .other .next => attempt fun db => (.ok (), db)
  | .other (.getString _) => attempt fun db => (.ok (), db)
  | .other (.getInt _) => attempt fun db => (.ok (), db)
  | .other (.destroy _) => pure ()

def run {α : Type} (reg_user : RegUserProcedure) (program : MysqlProgram Unit α) (db : Mysql) :
    α × Mysql :=
  (program.interp (serve reg_user)).run db

end Mysql

end QuickChat
