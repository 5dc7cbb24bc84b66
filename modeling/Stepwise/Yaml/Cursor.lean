/-!
# Yaml - Reading characters with their place

A place in a text: what is left of it, and the line, the column and the number
of characters before it.  A place also knows how many lines ended since the last
character that is not a blank, and how many characters were asked for so far: a
reader may need some that it does not read over.

Main definitions:

- `isBlank` and `isBreak`, the characters between tokens.
- `Cursor`, with the operations that read on.
-/

namespace Stepwise.Yaml

/-- Whether a character is white space within a line. -/
def isBlank (c : Char) : Bool :=
  c == ' ' || c == '\t'

/-- Whether a character ends a line. -/
def isBreak (c : Char) : Bool :=
  c == '\n' || c == '\r' || c == '\u0085' || c == '\u2028' || c == '\u2029'

/-- Whether a character may stand in a text. -/
def isAllowed (c : Char) : Bool :=
  c == '\t' || c == '\n' || c == '\r' || (' ' ≤ c && c ≤ '~') || c == '\u0085' ||
    ('\u00a0' ≤ c && c.toNat ≤ 0xFFFD) || 0x10000 ≤ c.toNat

/-- Whether a character may stand in an anchor, a tag handle or a directive. -/
def isWord (c : Char) : Bool :=
  c.isAlphanum || c == '_' || c == '-'

/-- A place in a text. -/
structure Cursor where
  rest : List Char
  line : Nat
  column : Nat
  index : Nat
  /-- How many lines ended since the last character that is not a blank. -/
  newlines : Nat
  /-- How many characters of the text were asked for so far. -/
  asked : Nat
  deriving Inhabited

namespace Cursor

/-- The start of a text. -/
def start (text : List Char) : Cursor := ⟨text, 0, 0, 0, 0, 1⟩

/-- The character at a place. -/
def peek? (c : Cursor) : Option Char := c.rest.head?

/-- The character at a place, if it satisfies a condition. -/
def sees (c : Cursor) (p : Char → Bool) : Bool := c.rest.head?.any p

/-- Whether the text ends here. -/
def atEnd (c : Cursor) : Bool := c.rest.isEmpty

/-- Whether a line or the text ends here. -/
def atBreak (c : Cursor) : Bool := c.rest.head?.all isBreak

/-- Whether white space follows after `n` characters, or a line or the text ends
there. -/
def blankAfter (c : Cursor) (n : Nat) : Bool :=
  (c.rest.drop n).head?.all fun d => isBlank d || isBreak d

/-- Ask for `n` characters from here on. -/
def ask (c : Cursor) (n : Nat) : Cursor :=
  { c with asked := max c.asked (c.index + n) }

/-- Read over `n` characters of a line and ask for none. -/
def pass (c : Cursor) (n : Nat) : Cursor :=
  { c with
    rest := c.rest.drop n
    column := c.column + n
    index := c.index + n
    newlines := if (c.rest.take n).all isBlank then c.newlines else 0 }

/-- Read over `n` characters of a line and ask for the one after them. -/
def skip (c : Cursor) (n : Nat) : Cursor := (c.pass n).ask 1

/-- Read over the characters of a line that satisfy a condition. -/
def skipWhile (c : Cursor) (p : Char → Bool) : Cursor :=
  c.skip (c.rest.takeWhile p).length

/-- The characters of a line that satisfy a condition, and the place after them. -/
def readWhile (c : Cursor) (p : Char → Bool) : List Char × Cursor :=
  let run := c.rest.takeWhile p
  (run, c.skip run.length)

/-- The place after a line break of `n` characters. -/
def passBreak (c : Cursor) (n : Nat) : Cursor :=
  { c.ask 2 with
    rest := c.rest.drop n
    line := c.line + 1
    column := 0
    index := c.index + n
    newlines := c.newlines + 1 }

/-- The line break at a place, as it is kept in a text, and the place after it.
A carriage return before a line feed belongs to it. -/
def readBreak (c : Cursor) : List Char × Cursor :=
  match c.rest with
  | '\r' :: '\n' :: _ => (['\n'], c.passBreak 2)
  | d :: _ =>
    if d == '\u2028' || d == '\u2029' then ([d], c.passBreak 1)
    else if isBreak d then (['\n'], c.passBreak 1)
    else ([], c)
  | [] => ([], c)

/-- Read over the line break at a place. -/
def skipBreak (c : Cursor) : Cursor := c.readBreak.2

/-- Whether a document marker made of a character three times starts here. -/
def atMarker (c : Cursor) (mark : Char) : Bool :=
  c.column == 0 && c.rest.take 3 == [mark, mark, mark] && c.blankAfter 3

/-- Whether a document starts or ends here. -/
def atDocumentMarker (c : Cursor) : Bool :=
  c.atMarker '-' || c.atMarker '.'

/-- Read over a comment, if one starts here. -/
def skipComment (c : Cursor) : Cursor :=
  if c.sees (· == '#') then c.skipWhile (!isBreak ·) else c

/-- Read over blanks and line breaks, as often as `fuel` allows. -/
def skipSpace (c : Cursor) : Nat → Cursor
  | 0 => c
  | fuel + 1 =>
    if c.sees isBlank then (c.skip 1).skipSpace fuel
    else if c.sees isBreak then (c.skipBreak.ask 1).skipSpace fuel
    else c

end Cursor

end Stepwise.Yaml
