import QuickChat.Common.ConfigMgr

/-!
# The configuration of the verification server

`configparser.ConfigParser` as `serve` uses it. The names of options are put in lower case by
`optionxform`, which is `str.lower`; those of sections are not. The section `DEFAULT` gives every other
section the options that it lacks, and a value is interpolated when it is read: `%(name)s` stands for
another option of the section and `%%` for a percent sign.
-/

namespace QuickChat

open Text

inductive ConfigParserError where
  | KeyError
  | DuplicateError
  | InterpolationError
  deriving DecidableEq, Repr

structure ConfigParser where
  _sections : IniFile
  _defaults : List (Bytes × Bytes)

namespace ConfigParser

variable (optionxform : Bytes → Bytes)

def DEFAULTSECT : Bytes := ascii "DEFAULT"

def MAX_INTERPOLATION_DEPTH : Nat := 10

/-- `read`, which is strict: a section or an option that comes twice is an error. -/
def read (file : IniFile) : Except ConfigParserError ConfigParser :=
  let file := file.map fun entry =>
    (entry.1, entry.2.map fun option => (optionxform option.1, option.2))
  let sections := file.filter fun entry => entry.1 ≠ DEFAULTSECT
  let defaults := (file.filter fun entry => entry.1 = DEFAULTSECT).flatMap Prod.snd
  if (sections.map Prod.fst).Nodup ∧ (∀ entry ∈ sections, (entry.2.map Prod.fst).Nodup) ∧
      (defaults.map Prod.fst).Nodup then
    .ok ⟨sections, defaults⟩
  else .error .DuplicateError

/-- The options of a section with the defaults behind them; there are none for a section that does not
exist. -/
def _unify_values (config : ConfigParser) (section_name : Bytes) : Option (Bytes → Option Bytes) :=
  if section_name = DEFAULTSECT then some fun option => config._defaults.lookup option
  else (config._sections.lookup section_name).map fun options option =>
    options.lookup option <|> config._defaults.lookup option

/-! ### Interpolation -/

inductive Piece where
  | char (b : UInt8)
  | reference (name : Bytes)
  deriving DecidableEq, Repr

/-- Where a scan of a value is: in plain text, behind a percent sign, in the name of a reference, or
behind the parenthesis that closes it. -/
inductive Scan where
  | text
  | percent
  | name (read : Bytes)
  | closed (read : Bytes)

/-- The pieces of a value, with `%(name)s` matched as `%\(([^)]+)\)s`. -/
def scan : Scan → Bytes → Except ConfigParserError (List Piece)
  | .text, [] => .ok []
  | .text, b :: rest =>
      if b = 37 then scan .percent rest else (scan .text rest).map (Piece.char b :: ·)
  | .percent, [] => .error .InterpolationError
  | .percent, b :: rest =>
      if b = 37 then (scan .text rest).map (Piece.char b :: ·)
      else if b = 40 then scan (.name []) rest
      else .error .InterpolationError
  | .name _, [] => .error .InterpolationError
  | .name read, b :: rest =>
      if b ≠ 41 then scan (.name (read ++ [b])) rest
      else if read = [] then .error .InterpolationError
      else scan (.closed read) rest
  | .closed _, [] => .error .InterpolationError
  | .closed read, b :: rest =>
      if b = 115 then (scan .text rest).map (Piece.reference read :: ·)
      else .error .InterpolationError

/-- `_interpolate_some`, by the number of levels that are left. -/
def interpolate (map : Bytes → Option Bytes) : Nat → Bytes → Except ConfigParserError Bytes
  | 0, _ => .error .InterpolationError
  | levels + 1, value => do
      let pieces ← scan .text value
      let parts ← pieces.mapM fun
        | .char b => .ok [b]
        | .reference name =>
            match map (optionxform name) with
            | none => .error .InterpolationError
            | some value => if 37 ∈ value then interpolate map levels value else .ok value
      return parts.flatten

/-- `config.get(section, option)`; there is no value when the fallback is returned. -/
def get (config : ConfigParser) (section_name option : String) :
    Except ConfigParserError (Option Bytes) :=
  match config._unify_values (ascii section_name) with
  | none => .ok none
  | some map =>
      match map (optionxform (ascii option)) with
      | none => .ok none
      | some value => (interpolate optionxform map MAX_INTERPOLATION_DEPTH value).map some

def getItem (config : ConfigParser) (section_name option : String) :
    Except ConfigParserError Bytes := do
  match ← config.get optionxform section_name option with
  | none => .error .KeyError
  | some value => return value

end ConfigParser

/-- What `serve` reads; the port of Redis is a number when it is the fallback. -/
structure ServeConfig where
  port : Bytes
  redis_host : Bytes
  redis_port : Bytes ⊕ Nat
  VERIFY_PREFIX : Bytes
  deriving DecidableEq

/-- `serve`, up to the point where it connects to Redis. -/
def serve (optionxform : Bytes → Bytes) (config : ConfigParser) :
    Except ConfigParserError ServeConfig := do
  let port ← config.getItem optionxform "VerifyServer" "Port"
  let redis_host ← config.get optionxform "Redis" "Host"
  let redis_port ← config.get optionxform "Redis" "Port"
  let VERIFY_PREFIX ← config.get optionxform "redis" "verify_prefix"
  return ⟨port, redis_host.getD (ascii "localhost"), (redis_port.map Sum.inl).getD (.inr 6379),
    VERIFY_PREFIX.getD (ascii "verify:")⟩

end QuickChat
