import Stepwise.Yaml.Cursor

/-!
# Yaml - The text of scalars

Quoted, plain and block scalars and the rules by which line breaks in them fold:
a single line break becomes a blank, further ones are kept.

Main definitions:

- `readQuoted`, `readPlain` and `readBlock`, which give the text of a scalar and
  the place after it, or nothing where the scalar is malformed.
-/

namespace Stepwise.Yaml

/-! ## Folding -/

/-- White space met within a scalar: blanks on a line, or a first line break and
the ones after it. -/
structure Folding where
  broken : Bool
  first : List Char
  more : List Char
  blanks : List Char
  deriving Inhabited

namespace Folding

/-- No white space yet. -/
def none : Folding := ⟨false, [], [], []⟩

/-- What white space stands for between two pieces of text. -/
def text (f : Folding) : List Char :=
  if f.broken then
    if f.first = ['\n'] then
      if f.more.isEmpty then [' '] else f.more
    else f.first ++ f.more
  else f.blanks

end Folding

/-- Read over blanks and line breaks.  Where an indentation is given, a tab
before it on a new line is an error. -/
def readSpace (indent : Option Int) (c : Cursor) (f : Folding) :
    Nat → Option (Cursor × Folding)
  | 0 => some (c.ask 1, f)
  | fuel + 1 =>
    let c := c.ask 1
    match c.peek? with
    | none => some (c, f)
    | some d =>
      if isBlank d then
        if f.broken then
          if d == '\t' && indent.any ((c.column : Int) < ·) then none
          else readSpace indent (c.skip 1) f fuel
        else readSpace indent (c.skip 1) { f with blanks := f.blanks ++ [d] } fuel
      else if isBreak d then
        let (text, c) := c.readBreak
        if f.broken then readSpace indent c { f with more := f.more ++ text } fuel
        else readSpace indent c ⟨true, text, f.more, []⟩ fuel
      else some (c, f)

/-! ## Quoted scalars -/

/-- The value of a hexadecimal digit. -/
def hexDigit? (c : Char) : Option Nat :=
  if '0' ≤ c && c ≤ '9' then some (c.toNat - '0'.toNat)
  else if 'a' ≤ c && c ≤ 'f' then some (c.toNat - 'a'.toNat + 10)
  else if 'A' ≤ c && c ≤ 'F' then some (c.toNat - 'A'.toNat + 10)
  else none

/-- The value of hexadecimal digits. -/
def hexValue? (digits : List Char) : Option Nat :=
  digits.foldlM (fun n c => do return n * 16 + (← hexDigit? c)) 0

/-- A character by its number. -/
def charOf? (n : Nat) : Option Char :=
  if n.isValidChar then some (Char.ofNat n) else none

/-- The character an escape letter stands for. -/
def escape? : Char → Option Char
  | '0' => some '\x00'
  | 'a' => some '\x07'
  | 'b' => some '\x08'
  | 't' => some '\t'
  | '\t' => some '\t'
  | 'n' => some '\n'
  | 'v' => some '\x0b'
  | 'f' => some '\x0c'
  | 'r' => some '\r'
  | 'e' => some '\x1b'
  | ' ' => some ' '
  | '"' => some '"'
  | '\'' => some '\''
  | '\\' => some '\\'
  | 'N' => some '\u0085'
  | '_' => some '\u00a0'
  | 'L' => some '\u2028'
  | 'P' => some '\u2029'
  | _ => none

/-- How many digits the number after an escape letter has. -/
def escapeDigits? : Char → Option Nat
  | 'x' => some 2
  | 'u' => some 4
  | 'U' => some 8
  | _ => none

/-- The character of the escape sequence at a place, and the place after it. -/
def readEscape (c : Cursor) : Option (Char × Cursor) :=
  match c.rest with
  | _ :: letter :: rest =>
    match escape? letter with
    | some d => some (d, c.pass 2)
    | none => do
      let width ← escapeDigits? letter
      let digits := rest.take width
      if digits.length < width then none
      let d ← charOf? (← hexValue? digits)
      return (d, c.pass (2 + width))
  | _ => none

/-- The characters up to white space, the closing quote or an escaped line
break; the last part tells whether an escaped line break was met. -/
def readQuotedRun (quote : Char) (text : List Char) (c : Cursor) :
    Nat → Option (List Char × Cursor × Bool)
  | 0 => none
  | fuel + 1 =>
    let c := c.ask 2
    match c.rest with
    | [] => some (text, c, false)
    | d :: rest =>
      if isBlank d || isBreak d then some (text, c, false)
      else if d == quote then
        if quote == '\'' && rest.head? == some '\'' then
          readQuotedRun quote ('\'' :: text) (c.pass 2) fuel
        else some (text, c, false)
      else if quote == '"' && d == '\\' then
        if rest.head?.any isBreak then some (text, (c.pass 1).skipBreak, true)
        else
          match readEscape c with
          | some (e, c) => readQuotedRun quote (e :: text) c fuel
          | none => none
      else readQuotedRun quote (d :: text) (c.pass 1) fuel

/-- The text of a quoted scalar after its opening quote, in reverse, and the
place after its closing quote. -/
def readQuotedFrom (quote : Char) (text : List Char) (c : Cursor) :
    Nat → Option (List Char × Cursor)
  | 0 => none
  | fuel + 1 => do
    let c := c.ask 4
    if c.atDocumentMarker || c.atEnd then none
    let (text, c, escaped) ← readQuotedRun quote text c (c.rest.length + 1)
    if c.sees (· == quote) then return (text, c.pass 1)
    let (c, f) ← readSpace none c { Folding.none with broken := escaped } c.rest.length
    readQuotedFrom quote (f.text.reverse ++ text) c fuel

/-- The text of the quoted scalar at a place, and the place after it. -/
def readQuoted (quote : Char) (c : Cursor) : Option (String × Cursor) := do
  let (text, c) ← readQuotedFrom quote [] (c.pass 1) (c.rest.length + 1)
  return (String.ofList text.reverse, c)

/-! ## Plain scalars -/

/-- Whether a plain scalar ends before the character at a place. -/
def endsPlain (flow : Bool) (c : Cursor) : Bool :=
  match c.peek? with
  | none => true
  | some d =>
    isBlank d || isBreak d || (d == ':' && c.blankAfter 1) ||
      (flow && d ∈ [',', '?', '[', ']', '\x7b', '\x7d'])

/-- The characters up to the end of a plain scalar on a line, in reverse. -/
def readPlainRun (flow : Bool) (text : List Char) (c : Cursor) : Nat → List Char × Cursor
  | 0 => (text, c)
  | fuel + 1 =>
    match c.rest with
    | [] => (text, c)
    | d :: _ =>
      if endsPlain flow c then (text, c)
      else readPlainRun flow (d :: text) ((c.pass 1).ask 2) fuel

/-- The text of a plain scalar in reverse, the place after it and the white space
before that place. -/
def readPlainFrom (flow : Bool) (indent : Int) (text : List Char) (c : Cursor) (f : Folding) :
    Nat → Option (List Char × Cursor × Folding)
  | 0 => none
  | fuel + 1 =>
    let c := c.ask 4
    if c.atDocumentMarker || c.sees (· == '#') then some (text, c, f)
    else
      let (text, c', f) :=
        if endsPlain flow c then (text, c, f)
        else
          let (text, c) := readPlainRun flow (f.text.reverse ++ text) c c.rest.length
          (text, c, Folding.none)
      if c'.sees (fun d => isBlank d || isBreak d) then do
        let (c', f) ← readSpace (some indent) c' f c'.rest.length
        if !flow && (c'.column : Int) < indent then return (text, c', f)
        readPlainFrom flow indent text c' f fuel
      else some (text, c', f)

/-- The text of the plain scalar at a place, the place after it and whether a
line ended before that place. -/
def readPlain (flow : Bool) (indent : Int) (c : Cursor) : Option (String × Cursor × Bool) := do
  let (text, c, f) ← readPlainFrom flow indent [] c .none (c.rest.length + 1)
  return (String.ofList text.reverse, c, f.broken)

/-! ## Block scalars -/

/-- What becomes of the line breaks at the end of a block scalar. -/
inductive Chomping where
  | strip
  | clip
  | keep
  deriving DecidableEq, Repr, Inhabited

/-- The chomping of an indicator. -/
def chomping? : Char → Option Chomping
  | '+' => some .keep
  | '-' => some .strip
  | _ => none

/-- The indicators after `|` or `>`: chomping and indentation, in either order. -/
def readIndicators (c : Cursor) : Option (Chomping × Nat × Cursor) :=
  let digit? (c : Cursor) : Option (Nat × Cursor) :=
    match c.peek? with
    | some d =>
      if d == '0' then none
      else if d.isDigit then some (d.toNat - '0'.toNat, c.skip 1)
      else some (0, c)
    | none => some (0, c)
  match c.peek?.bind chomping? with
  | some ch => do
    let (n, c) ← digit? (c.skip 1)
    return (ch, n, c)
  | none => do
    let (n, c) ← digit? c
    if n = 0 then return (.clip, 0, c)
    match c.peek?.bind chomping? with
    | some ch => return (ch, n, c.skip 1)
    | none => return (.clip, n, c)

/-- Read over indentation and empty lines; gives the line breaks, the deepest
column seen and the place after them.  An indentation of zero is yet unknown. -/
def readIndentation (indent : Nat) (breaks : List Char) (deepest : Nat) (c : Cursor) :
    Nat → Option (List Char × Nat × Cursor)
  | 0 => none
  | fuel + 1 =>
    let spaces := (c.rest.takeWhile (· == ' ')).length
    let c := c.skip (if indent = 0 then spaces else min spaces (indent - c.column))
    let deepest := max deepest c.column
    if (indent = 0 || c.column < indent) && c.sees (· == '\t') then none
    else if c.sees isBreak then
      let (text, c) := c.readBreak
      readIndentation indent (breaks ++ text) deepest (c.ask 1) fuel
    else some (breaks, deepest, c)

/-- The lines of a block scalar, in reverse: the text so far, the last line
break, the empty lines after it and the place after them. -/
def readLines (literal : Bool) (indent : Nat) (text first more : List Char) (blank : Bool)
    (c : Cursor) : Nat → Option (List Char × List Char × List Char × Cursor)
  | 0 => none
  | fuel + 1 =>
    if c.column != indent || c.atEnd then some (text, first, more, c)
    else do
      let blankHere := c.sees isBlank
      let joined :=
        if !literal && !blank && !blankHere && first == ['\n'] then
          if more.isEmpty then [' '] else []
        else first
      let (line, c) := c.readWhile (!isBreak ·)
      let text := line.reverse ++ (more.reverse ++ (joined.reverse ++ text))
      let (first, c) := (c.ask 2).readBreak
      let (more, _, c) ← readIndentation indent [] 0 c (c.rest.length + 1)
      readLines literal indent text first more blankHere c fuel

/-- The text of the block scalar at a place, and the place after it. -/
def readBlock (literal : Bool) (parent : Int) (c : Cursor) : Option (String × Cursor) := do
  let (chomping, increment, c) ← readIndicators (c.skip 1)
  let c := (c.skipWhile isBlank).skipComment
  if !c.atBreak then none
  let c := c.skipBreak
  let given := if increment = 0 then 0 else (max parent 0).toNat + increment
  let (breaks, deepest, c) ← readIndentation given [] 0 c (c.rest.length + 1)
  let indent := if given = 0 then max deepest (max (parent + 1).toNat 1) else given
  let (text, first, more, c) ← readLines literal indent [] [] breaks false c (c.rest.length + 1)
  let tail :=
    match chomping with
    | .strip => []
    | .clip => first
    | .keep => first ++ more
  return (String.ofList (text.reverse ++ tail), c)

end Stepwise.Yaml
