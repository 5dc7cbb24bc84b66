import Stepwise.Yaml.Cursor

/-!
# Yaml - Comments in the gap between two tokens

Comments on lines below each other are one comment, unless an empty line or
another indentation sets them apart.  All that is kept of a comment is where it
starts and where it ends: a block collection is over where a comment at its
indentation starts.

A reader of comments looks at most 512 octets ahead for the next line of a
comment.

Main definitions:

- `Comment`, the place of a comment.
- `Surroundings`, what a reader of comments knows about the gap.
- `Commenting.read`, the comments from a place on, up to the next token or an end.
-/

namespace Stepwise.Yaml

/-- The place of a comment: the line of its start, counted from zero, the column of
its start, counted from one, and the number of characters before its end. -/
structure Comment where
  line : Nat
  column : Nat
  stop : Nat
  deriving DecidableEq, Repr, Inhabited

/-- What is known about the gap that comments stand in. -/
structure Surroundings where
  /-- The indentation of the innermost block collection. -/
  indent : Nat
  /-- The line below the last token, if the gap starts within a line. -/
  below : Option Nat
  /-- Whether the last token is the mark of a value. -/
  afterValue : Bool
  inFlow : Bool
  /-- How many characters of the text can be read, if not all. -/
  bound : Option Nat
  deriving Inhabited

/-- The state of reading comments: the place after the last one, those that are
complete, the last one first, the line and the column of the one that is not, and
how far ahead the next line was looked for. -/
structure Commenting where
  place : Cursor
  found : List Comment
  pending : Option (Nat × Nat)
  /-- Whether no line was empty so far. -/
  dense : Bool
  /-- Whether the last line was empty. -/
  afterEmpty : Bool
  line : Nat
  column : Nat
  ahead : Nat
  /-- Whether characters were asked for that cannot be read. -/
  short : Bool
  deriving Inhabited

namespace Commenting

/-- How far ahead the next line of a comment is looked for. -/
def lookahead : Nat := 512

/-- The state where comments start. -/
def start (c : Cursor) : Commenting :=
  ⟨c, [], none, c.newlines ≤ 1, false, c.line, c.column, 0, false⟩

/-- Complete the comment that is being read, if there is one, at a number of
characters after the place. -/
def complete (s : Commenting) (stop : Nat) : Commenting :=
  match s.pending with
  | some (line, column) => { s with found := ⟨line, column, stop⟩ :: s.found, pending := none }
  | none => s

/-- Whether the comment that is being read is over at the end of a line: it belongs
to what stands before it, because it starts right below that or left of the
collection around it. -/
def endsAtBreak (x : Surroundings) (s : Commenting) : Bool :=
  s.dense && s.pending.any fun (line, column) =>
    (some line == x.below && !x.afterValue) || column ≤ x.indent

/-- Complete a comment at the end of a line, of the text or of a flow collection. -/
def split (x : Surroundings) (s : Commenting) (closes : Bool) : Commenting :=
  if closes || (!s.afterEmpty && s.endsAtBreak x) then s.complete (s.place.index + s.ahead)
  else s

/-- Complete a comment where the next line has another indentation, left of the
collection around it. -/
def dedent (x : Surroundings) (s : Commenting) : Commenting :=
  if s.column ≤ x.indent && s.pending.any (·.2 != s.column) then
    s.complete (s.place.index + s.ahead)
  else s

/-- Read over a line of a comment, which starts after blanks and line breaks. -/
def take (s : Commenting) : Commenting :=
  let place := (s.place.skipSpace s.place.rest.length).skipComment
  { s with
    place
    pending := some (s.pending.getD (s.line, s.column))
    afterEmpty := false
    line := place.line
    column := 0
    ahead := 1 }

/-- What stands after the octet at a place: a line break of several octets leaves
some behind, which are no line break. -/
def afterOctet (cs : List Char) : List Char :=
  match cs with
  | c :: rest => if 1 < c.utf8Size then '\ufffd' :: rest else rest
  | [] => []

/-- Read comments, as often as `fuel` allows; `next` is what stands where the next
line is looked for. -/
def readOn (x : Surroundings) (s : Commenting) (next : List Char) : Nat → Commenting
  | 0 => s
  | fuel + 1 =>
    if lookahead ≤ s.ahead then s
    else if x.bound.any (· < s.place.index + s.ahead + 1) then { s with short := true }
    else
      let s := { s with place := s.place.ask (s.ahead + 1), column := s.column + 1 }
      match next with
      | [] => s.split x false
      | d :: _ =>
        if isBlank d then readOn x { s with ahead := s.ahead + 1 } (afterOctet next) fuel
        else if x.inFlow && (d == ']' || d == '\x7d') then s.split x true
        else if isBreak d then
          let s := s.split x false
          let s :=
            { s with
              dense := false
              afterEmpty := true
              column := 0
              line := s.line + 1
              ahead := s.ahead + 1 }
          readOn x s (afterOctet next) fuel
        else
          let s := s.dedent x
          if d == '#' then
            let s := s.take
            readOn x s (afterOctet s.place.rest) fuel
          else s

/-- Read the comments from a place on. -/
def read (x : Surroundings) (c : Cursor) : Commenting :=
  let s := readOn x (start c) c.rest (2 * c.rest.length + lookahead)
  s.complete (s.place.index + s.ahead - 1)

end Commenting

end Stepwise.Yaml
