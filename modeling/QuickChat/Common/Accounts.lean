import QuickChat.Common.MysqlCalls
import QuickChat.Common.Mysql

/-!
# Calls one after the other

The data access functions called in any order, each with the connection it asks for, against one
table of users. What every call has returned is kept next to the table.
-/

namespace QuickChat

/-- A call of a data access function and what it returned. -/
inductive AccountEntry where
  | RegUser (name email pwd : Bytes) (uid : Int)
  | CheckEmail (name email : Bytes) (valid : Bool)
  | UpdatePwd (name newpwd : Bytes) (updated : Bool)
  | CheckPwd (name pwd : Bytes) (userInfo : Option UserInfo)
  deriving DecidableEq, Repr

structure Accounts where
  db : Mysql
  history : List AccountEntry

namespace Accounts

def start (result : Int) : Accounts := ⟨⟨[], result, []⟩, []⟩

def step (reg_user : RegUserProcedure) (accounts : Accounts) : MysqlOp → Option Accounts
  | .RegUser name email pwd =>
      let (uid, db) := Mysql.run reg_user (MysqlDao.RegUser name email pwd) accounts.db
      some ⟨db, accounts.history ++ [.RegUser name email pwd uid]⟩
  | .CheckEmail name email =>
      let (valid, db) := Mysql.run reg_user (MysqlDao.CheckEmail name email) accounts.db
      some ⟨db, accounts.history ++ [.CheckEmail name email valid]⟩
  | .UpdatePwd name newpwd =>
      let (updated, db) := Mysql.run reg_user (MysqlDao.UpdatePwd name newpwd) accounts.db
      some ⟨db, accounts.history ++ [.UpdatePwd name newpwd updated]⟩
  | .CheckPwd name pwd =>
      let (userInfo, db) := Mysql.run reg_user (MysqlDao.CheckPwd name pwd) accounts.db
      some ⟨db, accounts.history ++ [.CheckPwd name pwd userInfo]⟩

end Accounts

end QuickChat
