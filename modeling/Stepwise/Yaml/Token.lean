import Stepwise.Text.Octets
import Stepwise.Yaml.Comment
import Stepwise.Yaml.ScalarText

/-!
# Yaml - Tokens

The words a document is written in, each with the line it starts on.
Indentation opens and closes collections, and a scalar or a flow collection is a
key when a colon follows it on the same line.  A reader of tokens looks two
tokens ahead, and beyond a token that may turn out to be a key, so a fault in the
text shows only to a reader that comes near it.  The text itself is taken in
stretches of 512 octets, and a forbidden character shows only to a reader that
needs its stretch.

Main definitions:

- `Lexeme`, what a token is, and `Token`, a lexeme with its line.
- `Lexer`, the state between two tokens, and `Lexer.fetch`, which reads the next
  ones.
- `Forbidden`, a character that may not stand in a text, and its stretch.
- `Token.scan`, the tokens of a text that a reader can see.
-/

namespace Stepwise.Yaml

/-! ## Lexemes and tokens -/

/-- What a token is. -/
inductive Lexeme where
  | version (major minor : Nat)
  | tagPrefix (handle text : String)
  | documentStart
  | documentEnd
  | streamEnd
  | sequenceStart
  | mappingStart
  | blockEnd
  | flowSequenceStart
  | flowSequenceEnd
  | flowMappingStart
  | flowMappingEnd
  | entry
  | flowEntry
  | key
  | value
  | reference (name : String)
  | anchor (name : String)
  | tag (handle suffix : String)
  | scalar (text : String) (plain : Bool)
  deriving DecidableEq, Repr, Inhabited

/-- A lexeme and the line it starts on, counted from one. -/
structure Token where
  lexeme : Lexeme
  line : Nat
  deriving DecidableEq, Repr, Inhabited

/-! ## Stretches -/

/-- How many octets of a text are taken at a time. -/
def stretchSize : Nat := 512

/-- How many characters fit into a number of octets. -/
def charsWithin (room : Nat) : List Char → Nat
  | [] => 0
  | c :: cs => if c.utf8Size ≤ room then charsWithin (room - c.utf8Size) cs + 1 else 0

/-- A forbidden character: the number of characters before it, and of those before
the stretch it stands in. -/
structure Forbidden where
  stretch : Nat
  index : Nat
  deriving DecidableEq, Repr, Inhabited

/-- The first forbidden character of a text.  The text goes on at a number of
characters after its start, in a stretch that has some room left. -/
def Forbidden.find? (stretch index room : Nat) : List Char → Option Forbidden
  | [] => none
  | c :: cs =>
    let (stretch, room) := if c.utf8Size ≤ room then (stretch, room) else (index, stretchSize)
    if isAllowed c then Forbidden.find? stretch (index + 1) (room - c.utf8Size) cs
    else some ⟨stretch, index⟩

/-! ## States -/

/-- A place where a key may have started: the number of the token there.  A token
is watched if a reader may not have it before it is known whether it is a key. -/
structure KeyStart where
  required : Bool
  watched : Bool
  token : Nat
  place : Cursor
  deriving Inhabited

/-- A flow collection, or the text outside of all of them: the place where a key may
have started, and the number of the token that opened the collection, as long as
no key has started in it. -/
structure Level where
  start : Option KeyStart
  opening : Option Nat
  deriving Inhabited

/-- The state between two tokens: the place in the text, the tokens so far, the
indentation of the open block collections, the open flow collections and the
comments since the last token, the last one first. -/
structure Lexer where
  place : Cursor
  tokens : Array Token
  indent : Int
  indents : List Int
  keyAllowed : Bool
  levels : List Level
  comments : List Comment
  /-- How many characters of the text can be read, if not all. -/
  bound : Option Nat
  /-- How many can be read once those beyond the bound were asked for. -/
  lastBound : Option Nat
  /-- A text that starts with a byte order mark has the first character of every
  line left out, as long as no character beyond its first stretch is needed. -/
  markedUpTo : Option Nat
  deriving Inhabited

namespace Lexer

/-- The state before a text, of which the first stretch has some room. -/
def start (room : Nat) (text : List Char) : Lexer :=
  let forbidden := Forbidden.find? 0 0 room text
  let marked := text.head? == some '\ufeff'
  { place := .start text
    tokens := #[]
    indent := -1
    indents := []
    keyAllowed := true
    levels := [⟨none, none⟩]
    comments := []
    bound := forbidden.map (·.stretch)
    lastBound := forbidden.map (·.index)
    markedUpTo := if marked then some (charsWithin room text) else none }

/-- How many flow collections are open. -/
def flow (l : Lexer) : Nat := l.levels.length - 1

/-- Whether a flow collection is open. -/
def inFlow (l : Lexer) : Bool := l.flow != 0

/-- How many flow collections, or block collections, may be open. -/
def maxDepth : Nat := 10000

/-- The state, if all characters that were asked for can be read. -/
def checked (l : Lexer) : Option Lexer :=
  if l.bound.all (l.place.asked ≤ ·) then some l else none

/-- Add a token that starts at the current place. -/
def emit (l : Lexer) (x : Lexeme) : Lexer :=
  { l with tokens := l.tokens.push ⟨x, l.place.line + 1⟩ }

/-- Add a token and read over the characters it is made of. -/
def consume (l : Lexer) (x : Lexeme) (width : Nat) : Lexer :=
  let l := l.emit x
  { l with place := l.place.pass width }

/-! ## Indentation -/

/-- The line of the first comment at the indentation of the innermost block
collection. -/
def commentLine? (l : Lexer) (comments : List Comment) : Option Nat :=
  (comments.filter fun x => (x.column : Int) == l.indent + 1).getLast?.map (·.line)

/-- Close the block collections deeper than a column.  A collection is over where a
comment at its indentation starts, or else where the one inside of it is over. -/
def closeTo (l : Lexer) (column : Int) (line : Nat) (comments : List Comment) : Nat → Lexer
  | 0 => l
  | fuel + 1 =>
    if l.inFlow || l.indent ≤ column then l
    else
      let line := (l.commentLine? comments).getD line
      let l :=
        { l with
          tokens := l.tokens.push ⟨.blockEnd, line + 1⟩
          indent := l.indents.headD (-1)
          indents := l.indents.tail }
      l.closeTo column line comments fuel

/-- Close the block collections deeper than a column, the innermost one at a line. -/
def unindent (l : Lexer) (column : Int) (line : Nat) (comments : List Comment) : Lexer :=
  l.closeTo column line comments (l.indents.length + 1)

/-- Open a block collection at a column deeper than the open ones; its token goes
before the one numbered `at?`, or to the end. -/
def indentTo (l : Lexer) (column : Nat) (at? : Option Nat) (x : Lexeme) (line : Nat) :
    Option Lexer :=
  if l.inFlow || column ≤ l.indent then some l
  else if maxDepth ≤ l.indents.length then none
  else
    some { l with
      indent := column
      indents := l.indent :: l.indents
      tokens := l.tokens.insertIdxIfInBounds (at?.getD l.tokens.size) ⟨x, line⟩ }

/-! ## Keys -/

/-- Forget the place where a key may have started; a place where one had to is an
error. -/
def dropStart (l : Lexer) : Option Lexer :=
  match l.levels with
  | ⟨some s, opening⟩ :: rest =>
    if s.required then none else some { l with levels := ⟨none, opening⟩ :: rest }
  | _ => some l

/-- Forget the place where a key may have started, which was one or cannot be one. -/
def clearStart (l : Lexer) : Lexer :=
  match l.levels with
  | level :: rest => { l with levels := { level with start := none } :: rest }
  | [] => l

/-- Note that a key may start here. -/
def saveStart (l : Lexer) : Option Lexer := do
  if !l.keyAllowed then return l
  let s : KeyStart :=
    { required := !l.inFlow && l.indent == (l.place.column : Int)
      watched := true
      token := l.tokens.size
      place := l.place }
  let l ← l.dropStart
  return { l with levels := ⟨some s, none⟩ :: l.levels.tail }

/-- Whether a place can still be the start of a key that ends here: on the same
line and at most 1024 characters before. -/
def KeyStart.reaches (s : KeyStart) (c : Cursor) : Bool :=
  s.place.line == c.line && c.index ≤ s.place.index + 1024

/-- The start of the key that ends here, if there is one. -/
def currentStart (l : Lexer) : Option (Option KeyStart) :=
  match l.levels.head?.bind (·.start) with
  | none => some none
  | some s =>
    if KeyStart.reaches s l.place then some (some s)
    else if s.required then none
    else some none

/-! ## White space -/

/-- Whether the mark of a value is the last token; a comma is passed over. -/
def afterValue (l : Lexer) : Bool :=
  let last := l.tokens.back?.map (·.lexeme)
  let last :=
    if last == some .flowEntry then l.tokens.pop.back?.map (·.lexeme) else last
  last == some .value

/-- What is known about the gap between the last token, which ended in a column, and
the current place. -/
def surroundings (l : Lexer) (column : Nat) : Surroundings :=
  let c := l.place
  let lower := if c.newlines == 0 && 1 < c.column then 1 else 0
  { indent := l.indent.toNat
    below := if 0 < column then some (c.line + 1 + lower - c.newlines) else none
    afterValue := l.afterValue
    inFlow := l.inFlow
    bound := l.bound }

/-- Read the comments from the current place on, in a gap that starts in a column. -/
def skipComments (l : Lexer) (column : Nat) : Option Lexer := do
  let l ← l.checked
  let s := Commenting.read (l.surroundings column) l.place
  let l ← checked { l with place := s.place, comments := s.found ++ l.comments }
  return if s.short then { l with bound := l.lastBound } else l

/-- Whether the first character of a line is left out here. -/
def isMarked (l : Lexer) (c : Cursor) : Bool :=
  c.column == 0 && l.markedUpTo.any (c.asked ≤ ·)

/-- Read over white space and comments up to the next token, in a gap that starts in
a column. -/
def skipGap (l : Lexer) (column : Nat) : Nat → Option Lexer
  | 0 => some l
  | fuel + 1 => do
    let c := l.place.ask 1
    let c := if l.isMarked c then c.skip 1 else c
    let c := c.skipWhile fun d => d == ' ' || (d == '\t' && (l.inFlow || !l.keyAllowed))
    let l := { l with place := c }
    let l ← if c.sees (· == '#') then l.skipComments column else pure l
    let c := l.place
    if c.sees isBreak then
      let keyAllowed := l.keyAllowed || !l.inFlow
      skipGap { l with place := c.skipBreak, keyAllowed } column fuel
    else return l

/-- Read over a comment on the line of the last token. -/
def skipLineComment (l : Lexer) : Option Lexer := do
  let l ← l.checked
  let c := l.place
  if 0 < c.newlines || l.tokens.back?.map (·.lexeme) == some .entry then return l
  let blanks := (c.rest.takeWhile isBlank).length
  let needed := min (blanks + 1) Commenting.lookahead
  if l.bound.any (· < c.index + needed) then return { l with bound := l.lastBound }
  let c := c.ask needed
  if blanks < Commenting.lookahead && (c.rest.drop blanks).head? == some '#' then
    checked { l with place := (c.skip blanks).skipComment }
  else return { l with place := c }

/-! ## Directives, anchors and tags -/

/-- Whether a character may stand in a tag. -/
def isTagChar (c : Char) : Bool :=
  isWord c || c ∈ [';', '/', '?', ':', '@', '&', '=', '+', '$', ',', '.', '!', '~', '*', '\'',
    '(', ')', '[', ']']

/-- The octets of escapes such as `%20` at the start of a text, at most `count`
of them. -/
def readOctets (text : List Char) : Nat → Option (List Nat)
  | 0 => some []
  | count + 1 =>
    match text with
    | '%' :: a :: b :: rest => do
      let octet := (← hexDigit? a) * 16 + (← hexDigit? b)
      return octet :: (← readOctets rest count)
    | _ => none

/-- How many octets belong together, by the first one. -/
def octetGroup? (first : Nat) : Option Nat :=
  if first < 0x80 then some 1
  else if 0xC0 ≤ first ∧ first < 0xE0 then some 2
  else if 0xE0 ≤ first ∧ first < 0xF0 then some 3
  else if 0xF0 ≤ first ∧ first < 0xF8 then some 4
  else none

/-- What the escaped octets at a place stand for, and how many there are.  Octets
that belong together and make up no character are shown as replacement
characters. -/
def readOctetChar (text : List Char) : Option (List Char × Nat) := do
  let first := (← readOctets text 1).headD 0
  let count ← octetGroup? first
  let octets ← readOctets text count
  if octets.tail.any fun o => o < 0x80 || 0xC0 ≤ o then none
  return (Text.Octets.lossyChars (octets.map (·.toUInt8)), count)

/-- The text of a tag at a place, in reverse, and the place after it. -/
def readTagText (text : List Char) (c : Cursor) : Nat → Option (List Char × Cursor)
  | 0 => some (text, c)
  | fuel + 1 =>
    match c.peek? with
    | none => some (text, c)
    | some d =>
      if d == '%' then do
        let (e, count) ← readOctetChar c.rest
        readTagText (e.reverse ++ text) (c.skip (3 * count)) fuel
      else if isTagChar d then readTagText (d :: text) (c.skip 1) fuel
      else some (text, c)

/-- The text of a tag at a place, which may be empty only after a head. -/
def readTagSuffix (head : Option String) (c : Cursor) : Option (String × Cursor) := do
  let (text, c) ← readTagText [] c c.rest.length
  if head.isNone && text.isEmpty then none
  return (String.ofList ((head.getD "").toList.drop 1 ++ text.reverse), c)

/-- The handle of a tag: words between exclamation marks, the last one optional. -/
def readHandle (c : Cursor) : Option (String × Cursor) := do
  if !c.sees (· == '!') then none
  let (word, c) := (c.skip 1).readWhile isWord
  if c.sees (· == '!') then return (String.ofList ('!' :: word ++ ['!']), c.skip 1)
  return (String.ofList ('!' :: word), c)

/-- The handle and the suffix of the tag at a place, and the place after them.  A
tag in angle brackets has no handle, and an exclamation mark alone is a suffix. -/
def readTagParts (c : Cursor) : Option (String × String × Cursor) :=
  if (c.rest.drop 1).head? == some '<' then do
    let (suffix, c) ← readTagSuffix none (c.skip 2)
    if !c.sees (· == '>') then none
    return ("", suffix, c.skip 1)
  else do
    let (handle, c) ← readHandle c
    if 1 < handle.length && handle.toList.getLast? == some '!' then
      let (suffix, c) ← readTagSuffix none c
      return (handle, suffix, c)
    let (suffix, c) ← readTagSuffix (some handle) c
    return if suffix.isEmpty then ("", "!", c) else ("!", suffix, c)

/-- The tag at a place, with white space after it. -/
def readTag (c : Cursor) : Option (String × String × Cursor) := do
  let (handle, suffix, c) ← readTagParts c
  if !c.blankAfter 0 then none
  return (handle, suffix, c)

/-- The name of an anchor or an alias at a place, and the place after it. -/
def readName (c : Cursor) : Option (String × Cursor) := do
  let (word, c) := (c.skip 1).readWhile isWord
  let ended := c.blankAfter 0 || c.sees (· ∈ ['?', ':', ',', ']', '\x7d', '%', '@', '\x60'])
  if word.isEmpty || !ended then none
  return (String.ofList word, c)

/-- A number of at most two digits at a place, and the place after it. -/
def readNumber (c : Cursor) : Option (Nat × Cursor) := do
  let (digits, c) := c.readWhile Char.isDigit
  if digits.isEmpty || 2 < digits.length then none
  return (digits.foldl (fun n d => n * 10 + (d.toNat - '0'.toNat)) 0, c)

/-- The version after a version directive. -/
def readVersion (c : Cursor) : Option (Lexeme × Cursor) := do
  let (major, c) ← readNumber c
  if !c.sees (· == '.') then none
  let (minor, c) ← readNumber (c.skip 1)
  return (.version major minor, c)

/-- The handle and the text after a tag directive. -/
def readTagPrefix (c : Cursor) : Option (Lexeme × Cursor) := do
  let (handle, c) ← readHandle c
  if handle != "!" && (handle.length < 2 || handle.toList.getLast? != some '!') then none
  if !c.sees isBlank then none
  let (text, c) ← readTagSuffix none (c.skipWhile isBlank)
  if !c.blankAfter 0 then none
  return (.tagPrefix handle text, c)

/-- The directive at a place, and the place after its line. -/
def readDirective (c : Cursor) : Option (Lexeme × Cursor) := do
  let (name, c) := (c.skip 1).readWhile isWord
  if name.isEmpty || !c.blankAfter 0 then none
  let c := c.skipWhile isBlank
  let (x, c) ←
    match String.ofList name with
    | "YAML" => readVersion c
    | "TAG" => readTagPrefix c
    | _ => none
  let c := (c.skipWhile isBlank).skipComment
  if !c.atBreak then none
  return (x, c.skipBreak)

/-! ## Tokens -/

/-- Close all block collections before a marker of the document or the stream. -/
def settle (l : Lexer) : Option Lexer := do
  let near := l.comments.head?.any (l.place.index ≤ ·.stop + 1)
  let l ← (l.unindent (-1) l.place.line (if near then l.comments else [])).dropStart
  return { l with keyAllowed := false }

/-- The end of the text. -/
def fetchEnd (l : Lexer) : Option Lexer := do
  let c := l.place
  let c := if c.column == 0 then c else { c with line := c.line + 1, column := 0 }
  return (← settle { l with place := c }).emit .streamEnd

/-- A directive. -/
def fetchDirective (l : Lexer) : Option Lexer := do
  let l ← l.settle
  let (x, c) ← readDirective l.place
  return { l.emit x with place := c }

/-- The start or the end of a document. -/
def fetchMarker (l : Lexer) (x : Lexeme) : Option Lexer := do
  return (← l.settle).consume x 3

/-- The start of a flow collection. -/
def fetchFlowStart (l : Lexer) (x : Lexeme) : Option Lexer := do
  let l ← l.saveStart
  if maxDepth ≤ l.flow then none
  let level : Level := ⟨none, some l.tokens.size⟩
  return { l.consume x 1 with levels := level :: l.levels, keyAllowed := true }

/-- No longer watch the token of a number. -/
def unwatch (token : Option Nat) (level : Level) : Level :=
  match level.start with
  | some s =>
    if some s.token == token then { level with start := some { s with watched := false } }
    else level
  | none => level

/-- Leave a flow collection, if one is open. -/
def leave : List Level → List Level
  | inner :: outer :: rest => unwatch inner.opening outer :: rest
  | levels => levels

/-- The end of a flow collection. -/
def fetchFlowEnd (l : Lexer) (x : Lexeme) : Option Lexer := do
  let l ← l.dropStart
  return { l.consume x 1 with levels := leave l.levels, keyAllowed := false }

/-- A comma in a flow collection. -/
def fetchFlowEntry (l : Lexer) : Option Lexer := do
  return { (← l.dropStart).consume .flowEntry 1 with keyAllowed := true }

/-- The start of an entry of a block sequence. -/
def fetchEntry (l : Lexer) : Option Lexer := do
  if !l.inFlow && !l.keyAllowed then none
  let l ← (← l.indentTo l.place.column none .sequenceStart (l.place.line + 1)).dropStart
  return { l.consume .entry 1 with keyAllowed := true }

/-- A question mark before a key. -/
def fetchKey (l : Lexer) : Option Lexer := do
  if !l.inFlow && !l.keyAllowed then none
  let l ← (← l.indentTo l.place.column none .mappingStart (l.place.line + 1)).dropStart
  return { l.consume .key 1 with keyAllowed := !l.inFlow }

/-- A colon before a value: the key in front of it, if there is one, gets its
token now. -/
def fetchValue (l : Lexer) : Option Lexer := do
  match ← l.currentStart with
  | some s =>
    let line := s.place.line + 1
    let l := { l with tokens := l.tokens.insertIdxIfInBounds s.token ⟨.key, line⟩ }
    let l ← l.indentTo s.place.column (some s.token) .mappingStart line
    return { l.clearStart.consume .value 1 with keyAllowed := false }
  | none =>
    if !l.inFlow && !l.keyAllowed then none
    let l ← l.indentTo l.place.column none .mappingStart (l.place.line + 1)
    return { l.clearStart.consume .value 1 with keyAllowed := !l.inFlow }

/-- An alias or an anchor. -/
def fetchName (l : Lexer) (x : String → Lexeme) : Option Lexer := do
  let l ← l.saveStart
  let (name, c) ← readName l.place
  return { l.emit (x name) with place := c, keyAllowed := false }

/-- A tag. -/
def fetchTag (l : Lexer) : Option Lexer := do
  let l ← l.saveStart
  let (handle, suffix, c) ← readTag l.place
  return { l.emit (.tag handle suffix) with place := c, keyAllowed := false }

/-- A block scalar. -/
def fetchBlock (l : Lexer) (literal : Bool) : Option Lexer := do
  let l ← l.dropStart
  let (text, c) ← readBlock literal l.indent l.place
  return { l.emit (.scalar text false) with place := c, keyAllowed := true }

/-- A quoted scalar. -/
def fetchQuoted (l : Lexer) (quote : Char) : Option Lexer := do
  let l ← l.saveStart
  let (text, c) ← readQuoted quote l.place
  return { l.emit (.scalar text false) with place := c, keyAllowed := false }

/-- A plain scalar. -/
def fetchPlain (l : Lexer) : Option Lexer := do
  let l ← l.saveStart
  let (text, c, broken) ← readPlain l.inFlow (l.indent + 1) l.place
  return { l.emit (.scalar text true) with place := c, keyAllowed := broken }

/-- Whether a character has a meaning of its own at the start of a token. -/
def isIndicator (c : Char) : Bool :=
  c ∈ ['-', '?', ':', ',', '[', ']', '\x7b', '\x7d', '#', '&', '*', '!', '|', '>', '\'', '"', '%',
    '@', '\x60']

/-- The token that starts with a character. -/
def fetchAt (l : Lexer) (d : Char) : Option Lexer :=
  let c := l.place
  if d == '[' then l.fetchFlowStart .flowSequenceStart
  else if d == '\x7b' then l.fetchFlowStart .flowMappingStart
  else if d == ']' then l.fetchFlowEnd .flowSequenceEnd
  else if d == '\x7d' then l.fetchFlowEnd .flowMappingEnd
  else if d == ',' then l.fetchFlowEntry
  else if d == '-' && c.blankAfter 1 then l.fetchEntry
  else if d == '?' && (l.inFlow || c.blankAfter 1) then l.fetchKey
  else if d == ':' && (l.inFlow || c.blankAfter 1) then l.fetchValue
  else if d == '*' then l.fetchName .reference
  else if d == '&' then l.fetchName .anchor
  else if d == '!' then l.fetchTag
  else if d == '|' && !l.inFlow then l.fetchBlock true
  else if d == '>' && !l.inFlow then l.fetchBlock false
  else if d == '\'' || d == '"' then l.fetchQuoted d
  else if (!isBlank d && !isIndicator d) || d == '-' || (!l.inFlow && (d == '?' || d == ':')) then
    l.fetchPlain
  else none

/-- Read the next token, together with those that close the block collections
before it. -/
def fetch (l : Lexer) : Option Lexer := do
  let gap := l.place
  let l ← skipGap { l with comments := [] } gap.column (gap.rest.length + 1)
  let l := l.unindent l.place.column gap.line l.comments
  let c := l.place.ask 4
  let l := { l with place := c }
  match c.peek? with
  | none => l.fetchEnd >>= checked
  | some d =>
    if c.column == 0 && d == '%' then l.fetchDirective >>= checked
    else if c.atMarker '-' then l.fetchMarker .documentStart >>= checked
    else if c.atMarker '.' then l.fetchMarker .documentEnd >>= checked
    else l.fetchAt d >>= skipLineComment

/-- The number of the first token that may still turn out to be a key. -/
def firstOpen? (l : Lexer) : Option Nat :=
  let isOpen (s : KeyStart) : Bool := s.watched && (s.required || KeyStart.reaches s l.place)
  ((l.levels.filterMap (·.start)).filter isOpen).map (·.token) |>.min?

/-- The tokens a reader can see before a fault: neither the two before the fault, nor
those from the first one on that may still turn out to be a key. -/
def visible (l : Lexer) : List Token :=
  let count := l.tokens.size - 2
  (l.tokens.take (min count (l.firstOpen?.getD count))).toList

/-- The tokens of a text that a reader can see. -/
def scan (l : Lexer) : Nat → List Token
  | 0 => []
  | fuel + 1 =>
    if l.tokens.back?.map (·.lexeme) == some .streamEnd then l.tokens.toList
    else
      match l.fetch with
      | some l => l.scan fuel
      | none => l.visible

end Lexer

/-- The tokens of a text that a reader can see; the last one is the end of the
stream unless the text has a fault.  A byte order mark before the text is passed
over, but takes up room in the first stretch. -/
def Token.scan (text : String) : List Token :=
  let text := text.toList
  let marked := text.head? == some '\ufeff'
  let room := if marked then stretchSize - Char.utf8Size '\ufeff' else stretchSize
  let text := if marked then text.drop 1 else text
  (Lexer.start room text).scan (text.length + 2)

end Stepwise.Yaml
