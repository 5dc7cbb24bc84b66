import Stepwise.Session.Report
import Stepwise.Text.Lines

/-!
# Session - Stepping by commands

A session is driven by commands, one in a line, and answers each with a text.  The
last thousand lines entered are kept; a line that repeats the one before it is kept
once.

Main definitions:

- `History`, the lines entered so far.
- `Prompt`, the commands.
- `Dialogue`, a session with its settings and the lines entered, and
  `Dialogue.respond`, the answer to one line.
- `Dialogue.converse`, the answers to several lines.
-/

namespace Stepwise

/-! ## The lines entered so far -/

/-- The lines entered so far, the first one first. -/
structure History where
  entries : List (List UInt8)
  deriving DecidableEq, Repr, Inhabited

namespace History

/-- No lines. -/
def empty : History := ⟨[]⟩

/-- How many lines are kept. -/
def limit : Nat := 1000

/-- Only the last lines. -/
def trimmed (entries : List (List UInt8)) : History :=
  ⟨entries.drop (entries.length - limit)⟩

/-- Keep a line, unless it repeats the one before it. -/
def push (h : History) (line : List UInt8) : History :=
  if h.entries.getLast? == some line then h else trimmed (h.entries ++ [line])

/-- The history stored in a text; it ends before a line that is too long. -/
def ofText (text : String) : History :=
  let lines := (Text.Line.all (Text.Octets.ofText text)).takeWhile (!·.cut)
  trimmed (lines.map (·.octets))

/-- A history as octets, one line each. -/
def octets (h : History) : List UInt8 :=
  h.entries.flatMap (· ++ [Text.Line.lineFeed])

/-- A history as a text, one line each. -/
def text (h : History) : String := Text.Octets.lossy h.octets

end History

/-! ## Commands -/

/-- The commands of a dialogue. -/
inductive Prompt where
  | step
  | back
  | run
  | scope
  | output
  | quit
  | help
  | unknown (line : List UInt8)
  deriving DecidableEq, Repr, Inhabited

namespace Prompt

/-- The command in a line; white space around it does not matter. -/
def ofLine (line : List UInt8) : Prompt :=
  match Text.trim (Text.Octets.lossy line) with
  | "" | "n" => step
  | "b" => back
  | "r" => run
  | "e" => scope
  | "o" => output
  | "q" => quit
  | "h" | "?" => help
  | _ => unknown line

/-- The list of commands. -/
def helpText : String :=
  "commands:\n" ++
  "  n, <enter>  step\n" ++
  "  b           step back\n" ++
  "  r           run to the end\n" ++
  "  e           show variables\n" ++
  "  o           show output\n" ++
  "  q           quit\n"

end Prompt

/-- A dialogue: the session, whether reports are coloured, the limit of a run,
and the lines entered. -/
structure Dialogue where
  session : Session
  colored : Bool
  limit : Int
  history : History
  deriving Inhabited

/-- How a dialogue goes on. -/
inductive Status where
  | going
  | ended
  | failed (error : NodeError)
  deriving DecidableEq, Repr, Inhabited

/-- The answer to a line: the dialogue after it, what is printed, and how it goes
on. -/
structure Turn where
  dialogue : Dialogue
  text : String
  status : Status
  deriving Inhabited

namespace Dialogue

/-- Go on with a text printed. -/
def say (d : Dialogue) (text : String) : Turn := ⟨d, text, .going⟩

/-- Go on with a report printed after a text. -/
def report (d : Dialogue) (text : String) (s : Session) : Turn :=
  match s.report d.colored with
  | (s, .ok r) => ⟨{ d with session := s }, text ++ r, .going⟩
  | (s, .error e) => ⟨{ d with session := s }, text, .failed e⟩

/-- The line that tells of an error. -/
def errorText : Option EvalError → String
  | some e => "error: " ++ e.message ++ "\n"
  | none => ""

/-- Text with a line end, unless it has one. -/
def ended (text : String) : String :=
  if text.endsWith "\n" then text else text ++ "\n"

/-- Keep a line that is not blank. -/
def remember (d : Dialogue) (line : List UInt8) : Dialogue :=
  if Text.trim (Text.Octets.lossy line) == "" then d
  else { d with history := d.history.push line }

/-- The answer to a line.  There is none if a run has no end. -/
def respond (d : Dialogue) (line : List UInt8) : Option Turn :=
  let d := d.remember line
  let s := d.session
  match Prompt.ofLine line with
  | .step =>
    if s.done then some (d.say (ErrorClass.terminated.text ++ "\n"))
    else
      let (s, error) := s.step
      some (d.report (errorText error) s)
  | .back =>
    match s.back? with
    | some s => some (d.report "" s)
    | none => some (d.say "at the first step\n")
  | .run =>
    (s.run d.limit (State.fuelFor d.limit)).map fun stop =>
      d.report (errorText stop.error) stop.session
  | .scope => some (d.say ("env: " ++ s.env.text ++ "\n"))
  | .output => some (d.say (ended s.output))
  | .quit => some ⟨d, "", .ended⟩
  | .help => some (d.say Prompt.helpText)
  | .unknown line =>
    some (d.say ("unknown command " ++ Text.Escaped.quoteOctets line ++ ", h for help\n"))

/-- The answers to lines, up to the one that ends the dialogue. -/
def converse (d : Dialogue) (text : String) : List Text.Line → Option Turn
  | [] => some ⟨d, text, .ended⟩
  | line :: rest => do
    let turn ← d.respond line.octets
    let text := text ++ turn.text
    match turn.status with
    | .going => turn.dialogue.converse text rest
    | status => return ⟨turn.dialogue, text, status⟩

end Dialogue

end Stepwise
