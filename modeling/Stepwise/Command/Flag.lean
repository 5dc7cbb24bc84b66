import Stepwise.Number.Setting
import Stepwise.Text.Quoted

/-!
# Command - Flags

A flag is given as `--name=value` or `--name value`, or by a letter after a single
dash.  A flag that is a truth value needs no value.  Flags and arguments may be
mixed; two dashes end the flags.

Main definitions:

- `Flag`, what flags there are, and `FlagValue`, what they are set to.
- `FlagError`, with its wording.
- `Flag.parse`, the values and the arguments in a list of words.
-/

namespace Stepwise

/-- What a flag is set to. -/
inductive FlagType where
  | text
  | int
  | bool
  deriving DecidableEq, Repr, Inhabited

/-- A flag, with a letter if it has one. -/
structure Flag where
  name : String
  letter : Option Char
  type : FlagType
  deriving DecidableEq, Repr, Inhabited

/-- A value of a flag. -/
inductive FlagValue where
  | text (s : String)
  | int (n : Int)
  | bool (b : Bool)
  deriving DecidableEq, Repr, Inhabited

/-- What is wrong with the words of a command. -/
inductive FlagError where
  | unknown (name : String)
  | unknownLetter (letter : Char) (letters : String)
  | noValue (name : String)
  | badForm (word : String)
  | badValue (flag : Flag) (value : String) (fault : Number.ReadFault)
  deriving DecidableEq, Repr, Inhabited

namespace Flag

/-- A flag as it is named in a message. -/
def title (f : Flag) : String :=
  match f.letter with
  | some c => "-" ++ c.toString ++ ", --" ++ f.name
  | none => "--" ++ f.name

/-- Whether a flag can stand without a value. -/
def standsAlone (f : Flag) : Bool := f.type == .bool

end Flag

/-- The message of an error. -/
def FlagError.message : FlagError → String
  | unknown name => "unknown flag: --" ++ name
  | unknownLetter letter letters =>
    "unknown shorthand flag: " ++ Text.Escaped.quoteChar letter ++ " in -" ++ letters
  | noValue name => "flag needs an argument: --" ++ name
  | badForm word => "bad flag syntax: " ++ word
  | badValue flag value fault =>
    let reader := if flag.type == .bool then "strconv.ParseBool" else "strconv.ParseInt"
    "invalid argument " ++ Text.Escaped.quote value ++ " for " ++
      Text.Escaped.quote flag.title ++ " flag: " ++ reader ++ ": parsing " ++
      Text.Escaped.quote value ++ ": " ++ fault.text

/-- The values of flags, the last one first, and the arguments. -/
structure Parsed where
  values : List (String × FlagValue)
  args : List String
  deriving DecidableEq, Repr, Inhabited

namespace Flag

/-- The value that a text stands for. -/
def read (f : Flag) (value : String) : Except FlagError FlagValue :=
  match f.type with
  | .text => .ok (.text value)
  | .int => ((Number.readInt value).map .int).mapError (.badValue f value)
  | .bool => ((Number.readBool value).map .bool).mapError (.badValue f value)

/-- Set a flag. -/
def set (f : Flag) (value : String) (p : Parsed) : Except FlagError Parsed := do
  return { p with values := (f.name, ← f.read value) :: p.values }

/-- The two parts of a text around its first equal sign. -/
def splitValue (cs : List Char) : String × Option String :=
  let name := cs.takeWhile (· != '=')
  match cs.drop name.length with
  | [] => (String.ofList name, none)
  | _ :: value => (String.ofList name, some (String.ofList value))

/-- The first octet of a character, as a character. -/
def firstOctet (c : Char) : Char :=
  (c.toString.toUTF8.data[0]?.map fun b => Char.ofNat b.toNat).getD c

/-- The character that stands for an unknown letter in a message: the first octet of
the letter, and of that, as a character, the first octet again.  So all letters
beyond ASCII are shown as the same one. -/
def shownLetter (c : Char) : Char := firstOctet (firstOctet c)

/-- Set the flags of letters.  Only flags that stand alone have letters, so a
letter may be followed by a value after an equal sign, or by further letters. -/
def setLetters (flags : List Flag) (p : Parsed) : List Char → Except FlagError Parsed
  | [] => .ok p
  | c :: rest =>
    if "test.".toList.isPrefixOf (c :: rest) then .ok p
    else
      match flags.find? (·.letter == some c) with
      | none => .error (.unknownLetter (shownLetter c) (String.ofList (c :: rest)))
      | some f =>
        match rest with
        | '=' :: v :: value => f.set (String.ofList (v :: value)) p
        | rest =>
          match f.set "true" p with
          | .ok p => setLetters flags p rest
          | .error e => .error e

/-- The values and the arguments in a list of words. -/
def parse (flags : List Flag) (p : Parsed) : List String → Except FlagError Parsed
  | [] => .ok { p with args := p.args.reverse }
  | word :: rest =>
    match word.toList with
    | ['-', '-'] => .ok { p with args := p.args.reverse ++ rest }
    | '-' :: '-' :: name =>
      if name.head?.any fun c => c == '-' || c == '=' then .error (.badForm word)
      else
        let (name, value) := splitValue name
        match flags.find? (·.name == name) with
        | none => .error (.unknown name)
        | some f =>
          match value with
          | some v => do parse flags (← f.set v p) rest
          | none =>
            if f.standsAlone then do parse flags (← f.set "true" p) rest
            else
              match rest with
              | v :: rest => do parse flags (← f.set v p) rest
              | [] => .error (.noValue name)
    | '-' :: c :: letters => do parse flags (← setLetters flags p (c :: letters)) rest
    | _ => parse flags { p with args := word :: p.args } rest

end Flag

end Stepwise
