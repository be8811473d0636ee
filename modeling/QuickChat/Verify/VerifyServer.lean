import QuickChat.Common.Redis

/-!
# The verification server

`GetVerifyCode` draws six digits and stores them for 300 seconds. `redis-py` sends every argument of a
command with its length, so a key is the prefix and the whole of the email.
-/

namespace QuickChat

open Text

structure GetVerifyRsp where
  error : Int
  email : Bytes
  code : Bytes
  deriving DecidableEq, Repr

namespace VerifyService

/-- `"".join(random.choices(string.digits, k=6))`, by the digits that are drawn. -/
def joinDigits (choices : Fin 6 → Fin 10) : Bytes :=
  List.ofFn fun i => 48 + UInt8.ofNat (choices i).val

/-- `setex` raises when it is answered with an error. -/
def GetVerifyCode (VERIFY_PREFIX email : Bytes) (choices : Fin 6 → Fin 10) (redis : Redis) :
    GetVerifyRsp × Redis :=
  let code := joinDigits choices
  let result := redis.exec [ascii "SETEX", VERIFY_PREFIX ++ email, ascii "300", code]
  if result.1.type = .ERROR then (⟨0, email, []⟩, result.2) else (⟨0, email, code⟩, result.2)

end VerifyService

end QuickChat
