import Stepwise.Command.Basic
import Stepwise.Command.Directory
import Stepwise.Config.Load
import Stepwise.Lowering.Listing
import Stepwise.Program.Document
import Stepwise.Session.Dialogue
import Stepwise.Syntax.Outline

/-!
# Command - What commands do

A command is carried out on the files it can read and the octets it is given.  The
result is what it prints, the files it leaves and why it failed, if it did.

Main definitions:

- `CommandError`, with its wording.
- `Setup`, the settings after the configuration file and the flags.
- `execute`, the outcome of a call.
-/

namespace Stepwise

/-! ## Errors -/

/-- Failures of a command. -/
inductive CommandError where
  | usage (error : UsageError)
  | file (error : FileError)
  | config (error : ConfigError)
  | settings (reason : Config.Invalid)
  | level (name : String)
  | program (path : String) (error : ProgramError)
  | loading (path : String) (error : SessionError)
  | session (error : SessionError)
  /-- A state beyond the limit of steps was asked for. -/
  | beyondLimit (step limit : Int)
  deriving Repr, Inhabited

namespace CommandError

/-- The class of an error. -/
def errorClass : CommandError → ErrorClass
  | program _ e => e.errorClass
  | loading _ e => e.errorClass
  | session e => e.errorClass
  | _ => .other

/-- The line of the node at fault, where one is known. -/
def line? : CommandError → Option Nat
  | program _ e => e.line?
  | _ => none

/-- The message of an error. -/
def message : CommandError → String
  | usage e => e.message
  | file e => e.message
  | config e => e.message
  | settings reason => reason.message
  | level name => Level.unknownMessage name
  | program path e => path ++ ": " ++ e.message
  | loading path e => path ++ ": " ++ e.message
  | session e => e.message
  | beyondLimit step limit =>
    "step " ++ toString step ++ " is beyond the limit of " ++ toString limit ++ " steps"

end CommandError

/-! ## Settings -/

/-- The settings of a call. -/
structure Setup where
  config : Config
  level : Level
  deriving DecidableEq, Repr, Inhabited

namespace Setup

/-- Whether output is coloured.  Output to a terminal is not told apart from other
output, so it has to be asked for. -/
def colored (s : Setup) : Bool := s.config.color == "always"

/-- Put the flags of a call over settings. -/
def override (p : Parsed) (c : Config) : Config :=
  let c := match p.values.lookup "max-steps" with
    | some (.int n) => { c with maxSteps := n }
    | _ => c
  let c := if p.isSet "no-color" then { c with color := "never" } else c
  match p.values.lookup "log-level" with
  | some (.text s) => { c with logLevel := s }
  | _ => c

/-- The settings of the configuration file, if one is named. -/
def fromFile (p : Parsed) (d : Directory) : Except CommandError Config :=
  match p.values.lookup "config" with
  | some (.text path) =>
    if path == "" then .ok .defaults
    else
      match d.read path with
      | .error e => .error (.file e)
      | .ok text => (Config.defaults.load path text).mapError .config
  | _ => .ok .defaults

/-- The settings of a call: those of the configuration file, and over them the
flags. -/
def ofParsed (p : Parsed) (d : Directory) : Except CommandError Setup := do
  let c := override p (← fromFile p d)
  match c.validate with
  | .error reason => throw (.settings reason)
  | .ok () =>
    match Level.ofName? c.logLevel with
    | some level => return ⟨c, level⟩
    | none => throw (.level c.logLevel)

end Setup

/-! ## Commands -/

/-- What a command leaves behind. -/
structure Outcome where
  text : String
  directory : Directory
  error : Option CommandError
  deriving Inhabited

namespace Outcome

/-- A command that printed a text and succeeded. -/
def ok (d : Directory) (text : String) : Outcome := ⟨text, d, none⟩

/-- A command that printed a text and failed. -/
def failed (d : Directory) (text : String) (e : CommandError) : Outcome := ⟨text, d, some e⟩

end Outcome

/-- A program that was read, and a session of it. -/
structure Loaded where
  program : Program
  session : Session
  deriving Inhabited

/-- Read a program and start a session of it.  A program without a name has that of
its file. -/
def load (setup : Setup) (d : Directory) (path : String) : Except CommandError Loaded :=
  match d.read path with
  | .error e => .error (.file e)
  | .ok text =>
    match Program.parse text .initial with
    | .error e => .error (.program path e)
    | .ok (p, supply) =>
      let p := if p.name == "" then { p with name := baseName path } else p
      match Session.start (p.statements.map .filled) setup.config.viewCacheSize .silent supply with
      | .error e => .error (.loading path e)
      | .ok s => .ok ⟨p, s⟩

namespace Command

/-- Run a program and print its output. -/
def run (setup : Setup) (d : Directory) (s : Session) : Option Outcome := do
  let limit := setup.config.maxSteps
  let stop ← s.run limit (State.fuelFor limit)
  return ⟨stop.session.output, d, stop.error.map fun e => .session (.eval e)⟩

/-- Run a program and print the report of every state. -/
def trace (setup : Setup) (d : Directory) (s : Session) : Option Outcome := do
  let limit := setup.config.maxSteps
  let t ← s.trace setup.colored limit (State.fuelFor limit)
  return ⟨String.join t.reports.toList, d, t.error.map .session⟩

/-- Print the report of the state after a number of steps. -/
def «show» (setup : Setup) (d : Directory) (step : Int) (s : Session) : Outcome :=
  let limit := setup.config.maxSteps
  if 0 < limit ∧ limit < step then .failed d "" (.beyondLimit step limit)
  else
    match s.seek step with
    | (_, some e) => .failed d "" (.session e)
    | (s, none) =>
      match s.report setup.colored with
      | (_, .ok text) => .ok d text
      | (_, .error e) => .failed d "" (.session (.node e))

/-- Print the lowered program. -/
def lower (d : Directory) (s : Session) : Outcome :=
  match listing (s.program.map .filled) with
  | .ok text => .ok d text
  | .error _ => .ok d ""

/-- Print the tree of a program or of its lowered form. -/
def tree (d : Directory) (lowered : Bool) (l : Loaded) : Outcome :=
  .ok d (if lowered then outline (l.program.name ++ " (lowered)") l.session.program
    else outline l.program.name l.program.statements)

/-- The lines entered in earlier dialogues. -/
def history (setup : Setup) (d : Directory) : History :=
  match d.read setup.config.historyFile with
  | .ok text => .ofText text
  | .error _ => .empty

/-- The files after a dialogue: the lines entered are kept where they can be. -/
def keep (setup : Setup) (d : Directory) (h : History) : Directory :=
  (d.write? setup.config.historyFile h.text).getD d

/-- The dialogue of a session, before the first line. -/
def opening (setup : Setup) (d : Directory) (s : Session) : Turn :=
  Dialogue.report ⟨s, setup.colored, setup.config.maxSteps, history setup d⟩ "" s

/-- What a dialogue leaves behind. -/
def closing (setup : Setup) (d : Directory) (t : Turn) : Outcome :=
  let error :=
    match t.status with
    | .failed e => some (.session (.node e))
    | _ => none
  ⟨t.text, keep setup d t.dialogue.history, error⟩

/-- Step through a program by commands. -/
def step (setup : Setup) (d : Directory) (input : List UInt8) (s : Session) : Option Outcome :=
  let first := opening setup d s
  match first.status with
  | .going => (first.dialogue.converse first.text (Text.Line.all input)).map (closing setup d)
  | _ => some (closing setup d first)

/-- The number of a flag, zero if it is not given. -/
def number (p : Parsed) (flag : String) : Int :=
  match p.values.lookup flag with
  | some (.int n) => n
  | _ => 0

/-- Carry out a command on a program. -/
def onProgram (name : CommandName) (p : Parsed) (setup : Setup) (d : Directory)
    (input : List UInt8) (l : Loaded) : Option Outcome :=
  match name with
  | .run => if p.isSet "trace" then trace setup d l.session else run setup d l.session
  | .step => step setup d input l.session
  | .show => some («show» setup d (number p "at") l.session)
  | .lower => some (lower d l.session)
  | .tree => some (tree d (p.isSet "ir") l)
  | .dumpconfig => some (.ok d setup.config.dump)

/-- Carry out a command. -/
def carryOut (name : CommandName) (p : Parsed) (d : Directory) (input : List UInt8) :
    Option Outcome :=
  match Setup.ofParsed p d with
  | .error e => some (.failed d "" e)
  | .ok setup =>
    match p.args with
    | path :: _ =>
      match load setup d path with
      | .error e => some (.failed d "" e)
      | .ok l => onProgram name p setup d input l
    | [] => some (.ok d setup.config.dump)

end Command

/-- The paths that the words of a call may name: every word, and what follows an
equal sign in one. -/
def mentionedPaths (words : List String) : List String :=
  words.flatMap fun w => w :: (Flag.splitValue w.toList).2.toList

/-- The text that names the program and its version. -/
def versionText : String := programName ++ " version " ++ programVersion ++ "\n"

/-- The outcome of a call with words, on files and with octets to read.  There is
none if a program is run without a limit and does not end. -/
def execute (words : List String) (d : Directory) (input : List UInt8) : Option Outcome :=
  match Invocation.ofWords words with
  | .error e => some (.failed d "" (.usage e))
  | .ok .help => some (.ok d usageText)
  | .ok .version => some (.ok d versionText)
  | .ok (.command name p) => Command.carryOut name p d input

end Stepwise
