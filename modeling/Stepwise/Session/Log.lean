import Stepwise.Machine.Error

/-!
# Session - Log events

What a session reports while it is driven, as values.  A log keeps the events
that are at least as severe as its threshold.
-/

namespace Stepwise

/-- Severities, the least severe first. -/
inductive Level where
  | trace
  | debug
  | info
  | warn
  | error
  | fatal
  | panic
  deriving DecidableEq, Repr, Inhabited

namespace Level

/-- The rank of a severity; `debug` has rank zero. -/
def rank : Level → Int
  | trace => -1
  | debug => 0
  | info => 1
  | warn => 2
  | error => 3
  | fatal => 4
  | panic => 5

/-- The name of a severity. -/
def name : Level → String
  | trace => "trace"
  | debug => "debug"
  | info => "info"
  | warn => "warn"
  | error => "error"
  | fatal => "fatal"
  | panic => "panic"

/-- Every severity, the least severe first. -/
def all : List Level := [trace, debug, info, warn, error, fatal, panic]

/-- The severity of a name; the empty name stands for `warn`. -/
def ofName? (name : String) : Option Level :=
  if name = "" then some warn else all.find? (·.name == name)

/-- The message for a name that is no severity. -/
def unknownMessage (name : String) : String :=
  "Unknown Level String: '" ++ name ++ "', defaulting to NoLevel"

end Level

/-- A value attached to an event. -/
inductive Field where
  | number (n : Int)
  | text (s : String)
  deriving DecidableEq, Repr, Inhabited

/-- A log event: its severity, what happened, and named values. -/
structure Event where
  level : Level
  message : String
  fields : List (String × Field)
  deriving DecidableEq, Repr, Inhabited

/-- The events at least as severe as the threshold, the oldest first; without a
threshold nothing is kept. -/
structure Log where
  threshold : Option Level
  events : Array Event
  deriving Inhabited

namespace Log

/-- The log that keeps nothing. -/
def silent : Log := ⟨none, #[]⟩

/-- An empty log with a threshold. -/
def ofLevel (level : Level) : Log := ⟨some level, #[]⟩

/-- Record an event, unless it is below the threshold. -/
def push (log : Log) (event : Event) : Log :=
  match log.threshold with
  | some level =>
    if level.rank ≤ event.level.rank then { log with events := log.events.push event } else log
  | none => log

end Log

end Stepwise
