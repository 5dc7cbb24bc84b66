import Stepwise.Toml.Grammar

/-!
# Toml - What a text says, piece by piece

A text is a sequence of entries and headers of tables.  It is read as the pieces
that these are made of, in their order.  Where a line matters, a piece carries the
line that was counted when it ended; every line feed and every carriage return
counts as one.

Main definitions:

- `Value`, `Key` and `Event`.
- `Event.ofText`, the pieces of a text, or the line of a fault.
-/

namespace Stepwise.Toml

/-- A value, as far as it can be told apart. -/
inductive Value where
  | datetime (spelling : String)
  | float (spelling : String)
  | integer (spelling : String)
  | string (text : String)
  | boolean
  | array
  deriving DecidableEq, Repr, Inhabited

/-- A key, or the line of a key with an escape that stands for no character. -/
abbrev Key := Except Nat String

/-- The pieces of a text. -/
inductive Event where
  | key (k : Key)
  | value (v : Value)
  /-- A text with an escape that stands for no character, on a line. -/
  | broken (line : Nat)
  | arrayStart
  | arrayEnd
  /-- The start of a table that stands in place of a value. -/
  | tableStart (line : Nat)
  /-- The end of the last table that stands in place of a value. -/
  | tableEnd
  /-- The end of a key with its value. -/
  | entryEnd (line : Nat)
  | table (names : List Key) (spelling : String) (line : Nat)
  | arrayTable (names : List Key) (spelling : String) (line : Nat)

namespace Event

open Rule

/-! ## White space and comments -/

/-- Blanks. -/
def ws : Rule Unit :=
  mark do
    let _ ← span fun c => c == ' ' || c == '\t'

/-- Whether a character ends a line. -/
def isLineEnd (c : Char) : Bool := c == '\r' || c == '\n'

/-- Line ends. -/
def newline : Rule (List Char) :=
  mark do
    let cs ← span1 isLineEnd
    addLines cs.length
    return cs

/-- Blanks and line ends. -/
def space : Rule Unit :=
  mark do
    let cs ← span fun c => c == ' ' || c == '\t' || isLineEnd c
    addLines (cs.filter isLineEnd).length

/-- A comment. -/
def comment : Rule Unit :=
  mark do
    literal "#"
    let _ ← mark (span fun c => c == '\t' || ' ' ≤ c)

/-! ## Numbers and dates -/

/-- A digit. -/
def digit : Rule Char := mark (char Char.isDigit)

/-- A digit, perhaps after an underscore. -/
def digitGroup : Rule Unit :=
  discard digit <|> (do literal "_"; discard digit)

/-- At least one of what a rule reads. -/
def atLeastOne {α : Type} (x : Rule α) : Rule Unit := do
  let _ ← x
  let _ ← many x

/-- A sign, if there is one. -/
def sign : Rule Unit := discard (optional (char fun c => c == '-' || c == '+'))

/-- An integer without sign, which has no leading zero. -/
def natural : Rule Unit :=
  mark ((do
    let _ ← char fun c => '1' ≤ c && c ≤ '9'
    atLeastOne digitGroup) <|> discard digit)

/-- An integer. -/
def integer : Rule Unit := mark do sign; natural

/-- A point and digits. -/
def fraction : Rule Unit :=
  mark do
    literal "."
    let _ ← digit
    let _ ← many digitGroup

/-- An exponent. -/
def exponent : Rule Unit :=
  mark do
    let _ ← char fun c => c == 'e' || c == 'E'
    sign
    let _ ← digit
    let _ ← many digitGroup

/-- A number with a point or an exponent. -/
def float : Rule Unit :=
  mark do
    integer
    (do fraction; let _ ← optional exponent) <|> (do let _ ← optional fraction; exponent)

/-- Two digits. -/
def twoDigits : Rule Unit := mark (mark do let _ ← digit; let _ ← digit)

/-- Four digits. -/
def fourDigits : Rule Unit := mark (mark do twoDigits; twoDigits)

/-- A time of day. -/
def timeOfDay : Rule Unit :=
  mark do
    twoDigits; literal ":"; twoDigits; literal ":"; twoDigits
    let _ ← optional (mark do literal "."; atLeastOne digit)

/-- An offset from universal time. -/
def offset : Rule Unit :=
  mark (literal "Z" <|> mark do
    let _ ← char fun c => c == '-' || c == '+'
    twoDigits; literal ":"; twoDigits)

/-- A date. -/
def date : Rule Unit :=
  mark do
    fourDigits; literal "-"; twoDigits; literal "-"; twoDigits

/-- A date, a date with a time, or a time. -/
def datetime : Rule Unit :=
  mark ((do
    date
    let _ ← optional (do
      literal "T"
      mark do
        timeOfDay
        let _ ← optional offset)) <|> timeOfDay)

/-! ## Strings -/

/-- The value of a hexadecimal digit. -/
def hexValue (c : Char) : Nat :=
  if c.isDigit then c.toNat - '0'.toNat
  else if 'a' ≤ c then c.toNat - 'a'.toNat + 10
  else c.toNat - 'A'.toNat + 10

/-- A hexadecimal digit. -/
def hexDigit : Rule Nat := do
  let c ← mark (char fun c => c.isDigit || ('a' ≤ c && c ≤ 'f') || ('A' ≤ c && c ≤ 'F'))
  return hexValue c

/-- Four hexadecimal digits. -/
def hexQuad : Rule Nat :=
  mark do
    return (((← hexDigit) * 16 + (← hexDigit)) * 16 + (← hexDigit)) * 16 + (← hexDigit)

/-- A character by its number. -/
def charOf? (n : Nat) : Option Char :=
  if n.isValidChar then some (Char.ofNat n) else none

/-- What a letter after a backslash stands for. -/
def letter? : Char → Option Char
  | 'b' => some '\x08'
  | 't' => some '\t'
  | 'n' => some '\n'
  | 'f' => some '\x0c'
  | 'r' => some '\r'
  | '"' => some '"'
  | '\\' => some '\\'
  | _ => none

/-- A character after a backslash; it need not stand for any. -/
def escaped : Rule (Option Char) :=
  mark do
    mark (literal "\\")
    (do
      let c ← char fun c => c ∈ ['b', 't', 'n', 'f', 'r', '"', '/', '\\']
      return letter? c) <|>
    (do
      literal "u"
      return charOf? (← hexQuad)) <|>
    (do
      literal "U"
      let high ← hexQuad
      return charOf? (high * 65536 + (← hexQuad)))

/-- A character of a text in double quotes. -/
def basicChar : Rule (Option Char) :=
  mark ((do
    return some (← mark (char fun c => ' ' ≤ c && c != '"' && c != '\\'))) <|> escaped)

/-- A text all of whose characters stand for one. -/
def textOf? (cs : List (Option Char)) : Option String :=
  (cs.mapM id).map String.ofList

/-- A text in double quotes on one line. -/
def basicString : Rule (Option String) :=
  mark (mark do
    literal "\""
    let cs ← many basicChar
    literal "\""
    return textOf? cs)

/-- A part of a text in three double quotes, and whether it is made of line ends; a
backslash at the end of a line hides the white space after it. -/
def basicPart : Rule (Bool × List (Option Char)) :=
  mark ((do return (false, [← basicChar])) <|>
    (do return (true, (← newline).map some))) <|> (do
    mark (literal "\\")
    let _ ← newline
    space
    return (true, []))

/-- A text in three double quotes; line ends at its start are left out. -/
def longBasicString : Rule (Option String) :=
  mark do
    literal "\"\"\""
    let parts ← mark (many basicPart)
    literal "\"\"\""
    return textOf? ((parts.dropWhile (·.1)).flatMap (·.2))

/-- A text in single quotes on one line. -/
def literalString : Rule String :=
  mark do
    literal "'"
    let cs ← mark (span fun c => c == '\t' || (' ' ≤ c && c != '\''))
    literal "'"
    return String.ofList cs

/-- A text in three single quotes; line ends at its start are left out. -/
def longLiteralString : Rule String :=
  mark do
    literal "'''"
    let parts ← mark (many (do
      notAhead "'''"
      (do return [← mark (char fun c => c == '\t' || ' ' ≤ c)]) <|> newline))
    literal "'''"
    return String.ofList (parts.flatten.dropWhile isLineEnd)

/-- A text. -/
def string : Rule (Option String) :=
  mark ((do return some (← longLiteralString)) <|> (do return some (← literalString)) <|>
    longBasicString <|> basicString)

/-! ## Keys and values -/

/-- A key. -/
def keyName : Rule Key :=
  mark ((do
    let cs ← mark (span1 fun c => c.isAlphanum || c == '-' || c == '_')
    return .ok (String.ofList cs)) <|> mark (mark (do
    literal "\""
    let cs ← many basicChar
    literal "\""
    match textOf? cs with
    | some s => return .ok s
    | none => return .error (← line))))

/-- A number without its underscores. -/
def compact (s : String) : String := String.ofList (s.toList.filter (· != '_'))

/-- A value that has no parts. -/
def simpleValue : Rule Event :=
  (do return .value (.datetime (← spelling datetime))) <|>
  (do return .value (.float (compact (← spelling float)))) <|>
  (do return .value (.integer (compact (← spelling integer)))) <|>
  (do
    match ← string with
    | some s => return .value (.string s)
    | none => return .broken (← line)) <|>
  (do mark (literal "true" <|> literal "false"); return .value .boolean)

mutual

/-- A value. -/
def anyValue : Nat → Rule (List Event)
  | 0 => failure
  | fuel + 1 =>
    mark ((do return [← simpleValue]) <|> array fuel <|> inlineTable fuel)

/-- An array. -/
def array : Nat → Rule (List Event)
  | 0 => failure
  | fuel + 1 =>
    mark do
      literal "["
      space
      let values ← optional (mark do
        let first ← anyValue fuel
        let rest ← many (do
          space
          let _ ← optional comment
          space
          mark (literal ",")
          space
          let _ ← optional comment
          space
          anyValue fuel)
        space
        let _ ← optional (mark (literal ","))
        space
        let _ ← optional comment
        return first ++ rest.flatten)
      space
      literal "]"
      return .arrayStart :: values.getD [] ++ [.arrayEnd]

/-- A table in place of a value. -/
def inlineTable : Nat → Rule (List Event)
  | 0 => failure
  | fuel + 1 =>
    mark do
      literal "\x7b"
      let start ← line
      ws
      let entries ← mark (many (do
        let entry ← keyValue fuel
        let _ ← optional (mark do ws; literal ","; ws)
        return entry))
      ws
      literal "\x7d"
      return .tableStart start :: entries.flatten ++ [.tableEnd]

/-- An entry. -/
def keyValue : Nat → Rule (List Event)
  | 0 => failure
  | fuel + 1 =>
    mark do
      let k ← keyName
      ws
      literal "="
      ws
      let v ← anyValue fuel
      return .key k :: v ++ [.entryEnd (← line)]

end

/-! ## Texts -/

/-- The names in a header, and their spelling. -/
def headerNames : Rule (List Key) := do
  let first ← mark keyName
  let rest ← many (do
    mark (do ws; literal "."; ws)
    mark keyName)
  return first :: rest

/-- The header of a table or of an element of an array of tables. -/
def header : Rule Event :=
  mark (mark (do
    literal "["
    ws
    let here ← get
    let names ← mark headerNames
    let after ← get
    ws
    literal "]"
    return .table names (String.ofList (here.rest.take (after.index - here.index)))
      (← line)) <|> mark (do
    literal "[["
    ws
    let here ← get
    let names ← mark headerNames
    let after ← get
    ws
    literal "]]"
    return .arrayTable names (String.ofList (here.rest.take (after.index - here.index)))
      (← line)))

/-- A header with the entries below it, an entry, or a line without either. -/
def expression (fuel : Nat) : Rule (List Event) :=
  mark (mark (do
    ws
    let h ← header
    ws
    let _ ← optional comment
    let entries ← many (do
      space
      let entry ← keyValue fuel
      ws
      let _ ← optional comment
      return entry)
    return h :: entries.flatten) <|> (do
    ws
    let entry ← keyValue fuel
    ws
    let _ ← optional comment
    return entry) <|> (do
    ws
    let _ ← optional comment
    return []))

/-- A text. -/
def document (fuel : Nat) : Rule (List Event) :=
  mark do
    let first ← expression fuel
    let rest ← many (do
      let _ ← newline
      expression fuel)
    let _ ← optional newline
    atEnd
    return first ++ rest.flatten

/-- The line of the character after the first `n`; a line feed counts to the line
it starts. -/
def lineAt (text : List Char) (n : Nat) : Nat :=
  ((text.take (n + 1)).filter (· == '\n')).length + 1

/-- The pieces of a text, or the line of a fault. -/
def ofText (text : String) : Except Nat (List Event) :=
  let cs := text.toList
  match ((document (cs.length + 1)).run ⟨cs, 0, 1⟩).run 0 with
  | (some (events, _), _) => .ok events
  | (none, furthest) => .error (lineAt cs furthest)

end Event

end Stepwise.Toml
