import QuickChat.Gate.GateServer
import QuickChat.Lib.Expiring
import QuickChat.Lib.Machine
import QuickChat.Verify.VerifyServer

/-!
# The two servers of verification codes

The verification server and the gate server share a store and a prefix. Codes are stored by the one,
looked for by the handlers of the other, and gone when their time is; whoever else writes to the store
leaves the keys under the prefix alone.

Requests are handled one at a time here: one of them is one step, from its first call to its last. The
gate runs handlers on several threads, and `Backend` has their calls one by one. Every operation on the
store is given a connection.
-/

namespace QuickChat

open Text

inductive CodeEvent where
  | GetVerifyCode (email : Bytes) (choices : Fin 6 → Fin 10)
  | user_register (body_str : Bytes)
  | reset_pwd (body_str : Bytes)
  /-- seconds go by -/
  | elapse (seconds : Nat)
  /-- something else is written to the store -/
  | write (key : Bytes) (entry : Option (RedisValue × Option Nat))

structure CodeServers where
  redis : Redis
  mysql : Mysql

namespace CodeServers

variable (reg_user : RegUserProcedure) (cfg : ConfigMgr) (parse : Bytes → Option JsonValue)

def request (servers : CodeServers) (handler : GateHandler Bool) :
    Option (Except LogicError Bool × GateServer) :=
  GateServer.run reg_user handler (GateServer.start servers.redis servers.mysql)

def step (servers : CodeServers) : CodeEvent → Option CodeServers
  | .GetVerifyCode email choices =>
      let VERIFY_PREFIX := cfg.value "Redis" "verify_prefix"
      some { servers with
        redis := (VerifyService.GetVerifyCode VERIFY_PREFIX email choices servers.redis).2 }
  | .user_register body_str =>
      (servers.request reg_user (LogicSystem.user_register cfg parse body_str)).map
        fun result => ⟨result.2.redis, result.2.mysql⟩
  | .reset_pwd body_str =>
      (servers.request reg_user (LogicSystem.reset_pwd cfg parse body_str)).map
        fun result => ⟨result.2.redis, result.2.mysql⟩
  | .elapse seconds =>
      some { servers with redis := { servers.redis with now := servers.redis.now + seconds } }
  | .write key entry =>
      if cfg.value "Redis" "verify_prefix" <+: key then none
      else some { servers with redis := servers.redis.put key entry }

def stored : CodeEvent → Option (Expiring.Event Bytes Bytes)
  | .GetVerifyCode email choices => some (.put email (VerifyService.joinDigits choices))
  | .elapse seconds => some (.elapse seconds)
  | _ => none

/-- The code is the one most recently stored for the email, and has not expired. -/
def LiveCode (events : List CodeEvent) (email code : Bytes) : Prop :=
  Expiring.Live 300 (events.filterMap stored) email code

/-- `/user_register` comes to the call that follows its verification step. -/
def PassesRegister (servers : CodeServers) (body_str : Bytes) : Prop :=
  ∃ result after, servers.request reg_user (LogicSystem.user_register cfg parse body_str)
      = some (result, after) ∧
    ∃ name email pwd, GateCall.RegUser name email pwd ∈ after.calls

def PassesReset (servers : CodeServers) (body_str : Bytes) : Prop :=
  ∃ result after, servers.request reg_user (LogicSystem.reset_pwd cfg parse body_str)
      = some (result, after) ∧
    ∃ name email, GateCall.CheckEmail name email ∈ after.calls

end CodeServers

end QuickChat
