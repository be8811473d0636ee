import QuickChat.Lib.Text

/-!
# Encoding and decoding of URLs

The functions above `HttpConnection`. An assertion that fails ends the process; here the function is
left with an error.
-/

namespace QuickChat

inductive AssertionFailure where
  | failed
  deriving DecidableEq, Repr

/-- `isalnum` in the C locale. -/
def isalnum (b : UInt8) : Bool :=
  (48 ≤ b && b ≤ 57) || (65 ≤ b && b ≤ 90) || (97 ≤ b && b ≤ 122)

def ToHex (x : UInt8) : UInt8 := if x > 9 then x + 55 else x + 48

/-- Every letter has a value, also those behind F. -/
def FromHex (x : UInt8) : Except AssertionFailure UInt8 :=
  if 65 ≤ x ∧ x ≤ 90 then .ok (x - 65 + 10)
  else if 97 ≤ x ∧ x ≤ 122 then .ok (x - 97 + 10)
  else if 48 ≤ x ∧ x ≤ 57 then .ok (x - 48)
  else .error .failed

/-- The unreserved bytes are letters, digits, `-`, `_`, `.` and `~`. -/
def UrlEncode (str : Bytes) : Bytes :=
  str.flatMap fun b =>
    if isalnum b ∨ b = 45 ∨ b = 95 ∨ b = 46 ∨ b = 126 then [b]
    else if b = 32 then [43]
    else [37, ToHex (b >>> 4), ToHex (b &&& 0x0F)]

/-- The `char` that is appended for an escape is `high * 16 + low` modulo 256. -/
def UrlDecode : Bytes → Except AssertionFailure Bytes
  | [] => .ok []
  | b :: rest =>
      if b = 43 then (UrlDecode rest).map (32 :: ·)
      else if b = 37 then
        match rest with
        | high :: low :: rest => do
            let high ← FromHex high
            let low ← FromHex low
            (UrlDecode rest).map ((high * 16 + low) :: ·)
        | _ => .error .failed
      else (UrlDecode rest).map (b :: ·)

example : UrlDecode (Text.ascii "a+b%3dC") = .ok (Text.ascii "a b=C") := by
  decide +kernel

end QuickChat
