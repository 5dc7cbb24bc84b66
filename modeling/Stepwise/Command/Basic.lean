import Stepwise.Command.Flag

/-!
# Command - Commands and their words

The first word that is neither a flag nor the value of one names the command; the
other words are its flags and arguments.

Main definitions:

- `CommandName` and the flags that each command has.
- `UsageError`, with its wording.
- `Invocation`, what is asked for, and `Invocation.ofWords`.
-/

namespace Stepwise

/-- The commands. -/
inductive CommandName where
  | run
  | step
  | show
  | lower
  | tree
  | dumpconfig
  deriving DecidableEq, Repr, Inhabited

/-- The name of the program. -/
def programName : String := "ralph-step"

/-- The version of the program. -/
def programVersion : String := "0.1.0"

namespace CommandName

/-- The word that names a command. -/
def text : CommandName → String
  | run => "run"
  | step => "step"
  | «show» => "show"
  | lower => "lower"
  | tree => "tree"
  | dumpconfig => "dumpconfig"

/-- Every command. -/
def all : List CommandName := [run, step, «show», lower, tree, dumpconfig]

/-- The command that a word names. -/
def ofWord? (word : String) : Option CommandName := all.find? (·.text == word)

/-- How many arguments a command takes. -/
def arity : CommandName → Nat
  | dumpconfig => 0
  | _ => 1

end CommandName

/-- How the program is called. -/
def usageText : String :=
  "Usage:\n" ++
    String.join (CommandName.all.map fun c =>
      "  " ++ programName ++ " " ++ c.text ++ (if c.arity = 0 then "" else " FILE") ++ "\n")

namespace Flag

/-- The flag that asks for help. -/
def help : Flag := ⟨"help", some 'h', .bool⟩

/-- The flag that asks for the version. -/
def version : Flag := ⟨"version", some 'v', .bool⟩

/-- The flags of every command. -/
def shared : List Flag :=
  [⟨"config", none, .text⟩, ⟨"max-steps", none, .int⟩, ⟨"no-color", none, .bool⟩,
    ⟨"log-level", none, .text⟩]

/-- The flags of one command only. -/
def own : CommandName → List Flag
  | .run => [⟨"trace", none, .bool⟩]
  | .show => [⟨"at", none, .int⟩]
  | .tree => [⟨"ir", none, .bool⟩]
  | _ => []

end Flag

/-! ## Finding the command -/

/-- Whether the word after a flag is taken for its value.  A flag that is not known
is taken to have one. -/
def takesNext (word : String) : Bool :=
  let cs := word.toList
  if cs.contains '=' then false
  else
    match cs with
    | '-' :: '-' :: name =>
      !(Flag.shared.any fun f => f.name.toList == name && f.standsAlone)
    | ['-', _] => (word.utf8ByteSize == 2 : Bool)
    | _ => false

/-- The words that are neither flags nor values of flags.  A flag that takes the
last word hides it. -/
def plainWords : List String → List String
  | [] => []
  | word :: rest =>
    if word == "--" then []
    else if takesNext word then
      match rest with
      | [] | [_] => []
      | _ :: rest => plainWords rest
    else if word == "" || word.startsWith "-" then plainWords rest
    else word :: plainWords rest

/-- The words without the one that names the command. -/
def withoutCommand (command : String) : List String → List String
  | [] => []
  | word :: rest =>
    if word == "--" then word :: rest
    else if takesNext word then
      match rest with
      | [] => [word]
      | value :: rest => word :: value :: withoutCommand command rest
    else if word == command then rest
    else word :: withoutCommand command rest

/-! ## Suggestions -/

/-- The next row of the table of distances: `diagonal` and `left` are the distances
beside the next one. -/
def distanceRow (c : UInt8) (diagonal left : Nat) : List UInt8 → List Nat → List Nat
  | d :: ds, above :: row =>
    let here := if c == d then diagonal else min (min above left) diagonal + 1
    here :: distanceRow c above here ds row
  | _, _ => []

/-- The rows of the table of distances, one for each octet of the first text. -/
def distanceRows (t : List UInt8) : Nat → List Nat → List UInt8 → List Nat
  | _, row, [] => row
  | i, row, c :: cs =>
    let first := i + 1
    distanceRows t first (first :: distanceRow c (row.headD 0) first t row.tail) cs

/-- The least number of octets to insert, delete or replace to get from one text
to another. -/
def editDistance (s t : String) : Nat :=
  let t := t.toUTF8.data.toList
  (distanceRows t 0 (List.range (t.length + 1)) s.toUTF8.data.toList).getLastD 0

/-- The letters beyond ASCII whose small form takes another number of octets, each
with that form. -/
def resizedLetters : List (Char × Char) :=
  [('\u0130', 'i'), ('\u023a', '\u2c65'), ('\u023e', '\u2c66'), ('\u1e9e', '\u00df'),
    ('\u2126', '\u03c9'), ('\u212a', 'k'), ('\u212b', '\u00e5'), ('\u2c62', '\u026b'),
    ('\u2c64', '\u027d'), ('\u2c6d', '\u0251'), ('\u2c6e', '\u0271'), ('\u2c6f', '\u0250'),
    ('\u2c70', '\u0252'), ('\u2c7e', '\u023f'), ('\u2c7f', '\u0240'), ('\ua78d', '\u0265'),
    ('\ua7aa', '\u0266'), ('\ua7ab', '\u025c'), ('\ua7ac', '\u0261'), ('\ua7ad', '\u026c'),
    ('\ua7ae', '\u026a'), ('\ua7b0', '\u029e'), ('\ua7b1', '\u0287'), ('\ua7b2', '\u029d'),
    ('\ua7c5', '\u0282'), ('\ua7cb', '\u0264'), ('\ua7dc', '\u019b')]

/-- The letter that is compared with the letters of a name.  Names are in small
ASCII letters, so of any other letter only the number of its octets matters. -/
def comparedLetter (c : Char) : Char := (resizedLetters.lookup c).getD c.toLower

/-- The names that are suggested for a word that is none. -/
def suggestionNames : List String := CommandName.all.map (·.text) ++ ["completion"]

/-- The names that a word may have been meant for. -/
def suggestions (word : String) : List String :=
  let lower := word.map comparedLetter
  suggestionNames.filter fun name => editDistance lower name ≤ 2 || name.startsWith lower

/-! ## Invocations -/

/-- What is wrong with a call. -/
inductive UsageError where
  | flag (error : FlagError)
  | unknownCommand (word : String)
  | surplus (command : CommandName) (word : String)
  | argumentCount (wanted received : Nat)
  deriving DecidableEq, Repr, Inhabited

/-- The message of an error. -/
def UsageError.message : UsageError → String
  | flag error => error.message
  | unknownCommand word =>
    let names := suggestions word
    "unknown command " ++ Text.Escaped.quote word ++ " for " ++ Text.Escaped.quote programName ++
      if names.isEmpty then ""
      else "\n\nDid you mean this?\n" ++ String.join (names.map fun n => "\t" ++ n ++ "\n")
  | surplus command word =>
    "unknown command " ++ Text.Escaped.quote word ++ " for " ++
      Text.Escaped.quote (programName ++ " " ++ command.text)
  | argumentCount wanted received =>
    "accepts " ++ toString wanted ++ " arg(s), received " ++ toString received

/-- What is asked for. -/
inductive Invocation where
  | help
  | version
  | command (name : CommandName) (parsed : Parsed)
  deriving DecidableEq, Repr, Inhabited

/-- Whether a truth value is set. -/
def Parsed.isSet (p : Parsed) (flag : String) : Bool :=
  p.values.lookup flag == some (.bool true)

namespace Invocation

/-- A call without a command. -/
def ofRoot (words : List String) : Except UsageError Invocation := do
  if let word :: _ := plainWords words then throw (.unknownCommand word)
  match Flag.parse (Flag.help :: Flag.version :: Flag.shared) ⟨[], []⟩ words with
  | .error e => throw (.flag e)
  | .ok p => return if p.isSet "help" || !p.isSet "version" then .help else .version

/-- A call of a command. -/
def ofCommand (name : CommandName) (words : List String) : Except UsageError Invocation := do
  match Flag.parse (Flag.help :: Flag.own name ++ Flag.shared) ⟨[], []⟩ words with
  | .error e => throw (.flag e)
  | .ok p =>
    if p.isSet "help" then return .help
    if p.args.length = name.arity then return .command name p
    match name.arity, p.args with
    | 0, word :: _ => throw (.surplus name word)
    | wanted, args => throw (.argumentCount wanted args.length)

/-- What the words of a call ask for. -/
def ofWords (words : List String) : Except UsageError Invocation :=
  match plainWords words with
  | word :: _ =>
    match CommandName.ofWord? word with
    | some name => ofCommand name (withoutCommand word words)
    | none => if word ∈ ["help", "completion"] then .ok .help else ofRoot words
  | [] => ofRoot words

end Invocation

end Stepwise
