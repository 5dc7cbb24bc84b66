/-!
# Toml - Rules of a grammar

A rule reads a part of a text or fails.  A choice takes the first rule that does
not fail.  How far any rule came is remembered, also across choices, because that
is where a faulty text is said to be at fault.

Main definitions:

- `Point`, a place in a text with the line that has been counted so far.
- `Rule`, with `Rule.mark`, which notes how far a rule came.
- `Rule.char`, `Rule.literal`, `Rule.span` and `Rule.many`, from which the others
  are built.
-/

namespace Stepwise.Toml

/-- A place in a text: what is left, how many characters stand before it, and the
line counted so far. -/
structure Point where
  rest : List Char
  index : Nat
  line : Nat
  deriving Inhabited

/-- Rules that read a text.  The number kept is how far any rule came. -/
abbrev Rule (α : Type) := StateT Point (OptionT (StateM Nat)) α

namespace Rule

variable {α : Type}

/-- Note how far a rule came, if it read anything. -/
def mark (x : Rule α) : Rule α := do
  let before := (← get).index
  let a ← x
  let after := (← get).index
  if before < after then
    modifyThe Nat (max · after)
  return a

/-- One character that satisfies a condition. -/
def char (p : Char → Bool) : Rule Char := do
  let here ← get
  match here.rest with
  | c :: rest =>
    if p c then
      set { here with rest, index := here.index + 1 }
      return c
    else failure
  | [] => failure

/-- The characters of a text in turn. -/
def literal (s : String) : Rule Unit := do
  let here ← get
  let cs := s.toList
  if cs.isPrefixOf here.rest then
    set { here with rest := here.rest.drop cs.length, index := here.index + cs.length }
  else failure

/-- All characters up to the first that does not satisfy a condition. -/
def span (p : Char → Bool) : Rule (List Char) := do
  let here ← get
  let cs := here.rest.takeWhile p
  set { here with rest := here.rest.drop cs.length, index := here.index + cs.length }
  return cs

/-- At least one character up to the first that does not satisfy a condition. -/
def span1 (p : Char → Bool) : Rule (List Char) := do
  let cs ← span p
  if cs.isEmpty then failure
  return cs

/-- The results of a rule as often as it succeeds, at most as often as the bound. -/
def manyUpTo (x : Rule α) : Nat → Rule (List α)
  | 0 => return []
  | bound + 1 =>
    (do
      let a ← x
      return a :: (← manyUpTo x bound)) <|> return []

/-- The results of a rule as often as it succeeds. -/
def many (x : Rule α) : Rule (List α) := do
  manyUpTo x ((← get).rest.length + 1)

/-- What a rule reads, as text. -/
def spelling (x : Rule α) : Rule String := do
  let before ← get
  let _ ← x
  let after ← get
  return String.ofList (before.rest.take (after.index - before.index))

/-- Count lines. -/
def addLines (n : Nat) : Rule Unit :=
  modify fun p => { p with line := p.line + n }

/-- The line counted so far. -/
def line : Rule Nat := do return (← get).line

/-- The end of the text. -/
def atEnd : Rule Unit := do
  if !(← get).rest.isEmpty then failure

/-- Nothing, where a text does not follow. -/
def notAhead (s : String) : Rule Unit := do
  if s.toList.isPrefixOf (← get).rest then failure

end Rule

end Stepwise.Toml
