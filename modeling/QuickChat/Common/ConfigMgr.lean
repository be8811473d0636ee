import QuickChat.Lib.Text

/-!
# Configuration

The sections of `common.ini` as `ConfigMgr` keeps them. `operator[]` on a section or a key that is
not there gives an empty one.
-/

namespace QuickChat

structure ConfigMgr where
  config_map_ : List (Bytes × List (Bytes × Bytes))

/-- The sections of a file with their keys and values, in the order of the file. -/
abbrev IniFile := List (Bytes × List (Bytes × Bytes))

/-- The constructor. `read_ini` throws when a section or a key of a section comes twice. -/
def ConfigMgr.new (file : IniFile) : Option ConfigMgr :=
  if (file.map Prod.fst).Nodup ∧ ∀ entry ∈ file, (entry.2.map Prod.fst).Nodup then some ⟨file⟩
  else none

def ConfigMgr.value (cfg : ConfigMgr) (section_name key : String) : Bytes :=
  (((cfg.config_map_.lookup (Text.ascii section_name)).getD []).lookup (Text.ascii key)).getD []

/-- `cfg[section][key]` for a section named by a string of the configuration. -/
def ConfigMgr.valueIn (cfg : ConfigMgr) (section_name : Bytes) (key : String) : Bytes :=
  (((cfg.config_map_.lookup section_name).getD []).lookup (Text.ascii key)).getD []

/-- The words that `std::getline` with a delimiter reads: an empty last word is not one. -/
def getlines (delimiter : UInt8) (s : Bytes) : List Bytes :=
  let words := s.splitOn delimiter
  if words.getLast? = some [] then words.dropLast else words

example : getlines 44 (Text.ascii "a,,b,") = [Text.ascii "a", [], Text.ascii "b"] := by decide

end QuickChat
