import Stepwise.Config.Basic
import Stepwise.Number.Binary64
import Stepwise.Toml.Datetime
import Stepwise.Toml.Table

/-!
# Config - Settings from a text

The fields of a text replace the settings of the same name; other settings stay.

Main definitions:

- `ConfigError`, the failures, with their wording.
- `Config.load`, settings with those of a text put over them.
-/

namespace Stepwise

/-- What is wrong with a field. -/
inductive FieldFault where
  | undefined (name : String)
  /-- A value of the wrong type for a setting. -/
  | mismatch (setting type target : String)
  | tableMismatch (target : String)
  | outOfRange (setting spelling : String)
  /-- A real number beyond the largest one. -/
  | tooLarge (setting spelling : String)
  | noSuchTime (setting spelling : String) (fault : Toml.DatetimeFault)
  deriving DecidableEq, Repr, Inhabited

namespace FieldFault

/-- A setting, named in front of a message. -/
def place (setting : String) : String := "(config.Config." ++ setting ++ ") "

/-- What a type would need, for the types that hold others. -/
def need : String → String
  | "array" | "array table" => " (need slice)"
  | "table" => " (need struct or map)"
  | _ => ""

/-- The wording of a mismatch. -/
def mismatchText (type target : String) : String :=
  "cannot unmarshal TOML " ++ type ++ " into " ++ target ++ need type

/-- The wording of a fault. -/
def message : FieldFault → String
  | undefined name => "field '" ++ name ++ "' is not defined in config.Config"
  | mismatch setting type target => place setting ++ mismatchText type target
  | tableMismatch target => mismatchText "table" target
  | outOfRange setting spelling =>
    place setting ++ "value " ++ spelling ++ " is out of range for int"
  | tooLarge setting spelling =>
    place setting ++ "strconv.ParseFloat: parsing " ++ Text.Escaped.quote spelling ++
      ": value out of range"
  | noSuchTime setting spelling fault => place setting ++ fault.message spelling

end FieldFault

/-- Failures of reading settings. -/
inductive ConfigError where
  | text (file : String) (fault : Toml.Fault)
  | field (file : String) (line : Nat) (fault : FieldFault)
  | invalid (reason : Config.Invalid)
  deriving DecidableEq, Repr, Inhabited

namespace ConfigError

/-- A message about a line of a file. -/
def atLine (file : String) (line : Nat) (message : String) : String :=
  file ++ ", line " ++ toString line ++ ": " ++ message

/-- The message of an error. -/
def message : ConfigError → String
  | text file fault => atLine file fault.line fault.cause.message
  | field file line fault => atLine file line fault.message
  | invalid reason => reason.message

end ConfigError

namespace Config

/-- The type of a value, for a message. -/
def typeOf : Toml.Value → String
  | .datetime _ => "datetime"
  | .float _ => "float"
  | .integer _ => "integer"
  | .string _ => "string"
  | .boolean => "boolean"
  | .array => "array"

/-- Why a value is not of the type of a setting; first of all it has to exist. -/
def misfitValue (setting target : String) (v : Toml.Value) : FieldFault :=
  let mismatch := .mismatch setting (typeOf v) target
  match v with
  | .datetime spelling =>
    match Toml.DatetimeFault.find? spelling with
    | some fault => .noSuchTime setting spelling fault
    | none => mismatch
  | .float spelling =>
    if (Number.Binary64.ofText? spelling.toList).isNone then .tooLarge setting spelling
    else mismatch
  | _ => mismatch

/-- Why a field is not of the type of a setting. -/
def misfit (setting target : String) : Toml.Field → FieldFault
  | .value v _ => misfitValue setting target v
  | .table .. => .tableMismatch target
  | .arrayTable .. => .mismatch setting "array table" target

/-- A field as an integer of 64 bits. -/
def asInt (setting : String) (f : Toml.Field) : Except FieldFault Int :=
  match f with
  | .value (.integer spelling) _ =>
    match Number.Literal.integerIn? 10 spelling.toList with
    | some n => if Number.fitsInt64 n then .ok n else .error (.outOfRange setting spelling)
    | none => .error (.outOfRange setting spelling)
  | f => .error (misfit setting "int" f)

/-- A field as a text. -/
def asText (setting : String) (f : Toml.Field) : Except FieldFault String :=
  match f with
  | .value (.string s) _ => .ok s
  | f => .error (misfit setting "string" f)

/-- Put a field over the setting of its name. -/
def set (c : Config) (name : String) (f : Toml.Field) : Except FieldFault Config :=
  match name with
  | "MaxSteps" => do return { c with maxSteps := ← asInt name f }
  | "ViewCacheSize" => do return { c with viewCacheSize := ← asInt name f }
  | "Color" => do return { c with color := ← asText name f }
  | "LogLevel" => do return { c with logLevel := ← asText name f }
  | "HistoryFile" => do return { c with historyFile := ← asText name f }
  | _ => .error (.undefined name)

/-- Put the fields of a text over the settings. -/
def override (c : Config) (file text : String) : Except ConfigError Config :=
  match Toml.Tables.ofText text with
  | .error fault => .error (.text file fault)
  | .ok tables =>
    tables.topLevel.foldlM (fun c (name, f) => (c.set name f).mapError (.field file f.line)) c

/-- Settings with those of a text put over them; the result must make sense. -/
def load (c : Config) (file text : String) : Except ConfigError Config := do
  let c ← c.override file text
  match c.validate with
  | .ok () => return c
  | .error reason => throw (.invalid reason)

end Config

end Stepwise
