import QuickChat.Lib.Text

/-!
# Constants

The error codes and sizes that the servers share.
-/

namespace QuickChat

inductive ErrorCodes where
  | Success
  | Error_Json
  | RPCFailed
  | VerifyExpired
  | VerifyCodeErr
  | UserExist
  | PasswdErr
  | EmailNotMatch
  | PasswdUpFailed
  | PasswdInvalid
  | TokenInvalid
  | UidInvalid
  deriving DecidableEq, Repr

def ErrorCodes.value : ErrorCodes → Int
  | Success => 0
  | Error_Json => 1001
  | RPCFailed => 1002
  | VerifyExpired => 1003
  | VerifyCodeErr => 1004
  | UserExist => 1005
  | PasswdErr => 1006
  | EmailNotMatch => 1007
  | PasswdUpFailed => 1008
  | PasswdInvalid => 1009
  | TokenInvalid => 1010
  | UidInvalid => 1011

theorem ErrorCodes.value_injective : Function.Injective ErrorCodes.value := by
  intro a b h
  cases a <;> cases b <;> first | rfl | exact absurd h (by decide)

def MAX_LENGTH : Nat := 1024 * 2
def HEAD_TOTAL_LEN : Nat := 4
def HEAD_ID_LEN : Nat := 2
def HEAD_DATA_LEN : Nat := 2
def MAX_SENDQUE : Nat := 1000

def USERTOKENPREFIX : Bytes := Text.ascii "utoken_"
def LOGIN_COUNT : Bytes := Text.ascii "logincount"

end QuickChat
