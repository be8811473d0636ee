import QuickChat.Common.Mysql
import QuickChat.Common.RedisMgr
import QuickChat.Gate.LogicSystem

/-!
# A handler over the stores

The managers' functions run against a store and a user table, and the response collects what is
written to it. The server also keeps the calls of `MysqlMgr` that were made, in order.
-/

namespace QuickChat

structure GateServer where
  redis : Redis
  mysql : Mysql
  response : List JsonValue
  calls : List GateCall

namespace GateServer

def start (redis : Redis) (mysql : Mysql) : GateServer := ⟨redis, mysql, [], []⟩

def dao {α : Type} (reg_user : RegUserProcedure) (call : GateCall) (program : MysqlProgram Unit α) :
    StateT GateServer Option α := fun server =>
  let result := Mysql.run reg_user program server.mysql
  some (result.1, { server with mysql := result.2, calls := server.calls ++ [call] })

def serve (reg_user : RegUserProcedure) :
    (call : GateCall) → StateT GateServer Option call.Answer
  | .RedisGet key => fun server =>
      (RedisMgr.run (RedisMgr.Get key []) server.redis).map fun (answer, redis) =>
        (answer, { server with redis := redis })
  | .RegUser name email pwd =>
      dao reg_user (.RegUser name email pwd) (MysqlDao.RegUser name email pwd)
  | .CheckEmail name email => dao reg_user (.CheckEmail name email) (MysqlDao.CheckEmail name email)
  | .UpdatePwd name pwd => dao reg_user (.UpdatePwd name pwd) (MysqlDao.UpdatePwd name pwd)
  | .respond root => fun server =>
      some ((), { server with response := server.response ++ [root] })

def run {α : Type} (reg_user : RegUserProcedure) (handler : GateHandler α) (server : GateServer) :
    Option (Except LogicError α × GateServer) :=
  (handler.run.interp (serve reg_user)).run server

def Reports (server : GateServer) (code : ErrorCodes) : Prop :=
  ∃ root ∈ server.response, root.error? = some code.value

end GateServer

end QuickChat
