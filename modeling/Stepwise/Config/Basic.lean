import Stepwise.Text.Quoted

/-!
# Config - Settings

Main definitions:

- `Config`, the settings, and `Config.defaults`.
- `Config.validate`, which refuses settings that make no sense.
- `Config.dump`, the settings as a text.
-/

namespace Stepwise

/-- The settings of the stepper. -/
structure Config where
  /-- How many steps a run may take; zero or less means any number. -/
  maxSteps : Int
  /-- How many views a session keeps. -/
  viewCacheSize : Int
  /-- When views are coloured: `auto`, `always` or `never`. -/
  color : String
  logLevel : String
  /-- Where the lines of a session are kept; an empty name keeps none. -/
  historyFile : String
  deriving DecidableEq, Repr, Inhabited

namespace Config

/-- The settings that hold when nothing else is said. -/
def defaults : Config := ⟨10000, 128, "auto", "warn", ""⟩

/-- Settings that make no sense. -/
inductive Invalid where
  | color (got : String)
  | viewCacheSize (got : Int)
  deriving DecidableEq, Repr, Inhabited

/-- The wording of a refusal. -/
def Invalid.message : Invalid → String
  | color got => "invalid Color " ++ Text.Escaped.quote got ++ ", want auto, always or never"
  | viewCacheSize got => "ViewCacheSize must be positive, got " ++ toString got

/-- The ways to colour. -/
def colors : List String := ["auto", "always", "never"]

/-- Refuse settings that make no sense. -/
def validate (c : Config) : Except Invalid Unit :=
  if c.color ∉ colors then .error (.color c.color)
  else if c.viewCacheSize ≤ 0 then .error (.viewCacheSize c.viewCacheSize)
  else .ok ()

/-- A setting as a line of text. -/
def dumpLine (key value : String) : String :=
  key ++ " = " ++ value ++ "\n"

/-- The settings as a text, one in a line; an empty name of the history is left
out. -/
def dump (c : Config) : String :=
  dumpLine "MaxSteps" (toString c.maxSteps) ++
    dumpLine "ViewCacheSize" (toString c.viewCacheSize) ++
    dumpLine "Color" (Text.Escaped.quote c.color) ++
    dumpLine "LogLevel" (Text.Escaped.quote c.logLevel) ++
    if c.historyFile.isEmpty then ""
    else dumpLine "HistoryFile" (Text.Escaped.quote c.historyFile)

end Config

end Stepwise
