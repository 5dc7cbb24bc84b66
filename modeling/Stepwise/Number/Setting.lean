import Stepwise.Number.Literal

/-!
# Number - Numbers and truth values on a command line

An integer is written as in `Literal`, with underscores between its digits, and
has to fit 64 bits.

Main definitions:

- `ReadFault`, no number at all or one out of range, with its wording.
- `readInt` and `readBool`.
-/

namespace Stepwise.Number

/-- Why a text is not a value. -/
inductive ReadFault where
  | malformed
  | outOfRange
  deriving DecidableEq, Repr, Inhabited

/-- How a message names a fault. -/
def ReadFault.text : ReadFault → String
  | malformed => "invalid syntax"
  | outOfRange => "value out of range"

/-- The value of digits of a base, read from the left: a number of more than 64
bits is out of range whatever follows. -/
def readDigits (base : Nat) (n : Nat) : List Char → Except ReadFault Nat
  | [] => .ok n
  | c :: cs =>
    if c == '_' then readDigits base n cs
    else
      match digit? c with
      | some d =>
        if base ≤ d then .error .malformed
        else if wordBound ≤ n * base + d then .error .outOfRange
        else readDigits base (n * base + d) cs
      | none => .error .malformed

/-- Whether every underscore stands between digits; `after` tells whether a digit
stands before. -/
def separated (isDigit : Char → Bool) (after : Bool) : List Char → Bool
  | [] => true
  | ['_'] => false
  | '_' :: c :: cs => after && c != '_' && isDigit c && separated isDigit true cs
  | c :: cs => separated isDigit (isDigit c) cs

/-- The base of digits, the digits after its mark, and whether there is a mark. -/
def splitBase (cs : List Char) : Nat × List Char × Bool :=
  match cs with
  | '0' :: letter :: d :: rest =>
    match base? letter with
    | some b => (b, d :: rest, true)
    | none => (8, letter :: d :: rest, false)
  | '0' :: rest => (8, rest, false)
  | cs => (10, cs, false)

/-- The value of digits in the base that they start with. -/
def readNat (cs : List Char) : Except ReadFault Nat :=
  if cs.isEmpty then .error .malformed
  else
    let (base, digits, isMarked) := splitBase cs
    match readDigits base 0 digits with
    | .error e => .error e
    | .ok n =>
      let isDigit (c : Char) : Bool := (digit? c).any fun d => d < (if base = 16 then 16 else 10)
      let spelled := if isMarked then digits else cs
      if cs.contains '_' && !separated isDigit isMarked spelled then .error .malformed else .ok n

/-- An integer of 64 bits. -/
def readInt (s : String) : Except ReadFault Int :=
  let (negative, cs) := Literal.sign s.toList
  match readNat cs with
  | .error e => .error e
  | .ok n =>
    let v := Literal.signed negative n
    if fitsInt64 v then .ok v else .error .outOfRange

/-- A truth value. -/
def readBool (s : String) : Except ReadFault Bool :=
  if s ∈ ["1", "t", "T", "true", "TRUE", "True"] then .ok true
  else if s ∈ ["0", "f", "F", "false", "FALSE", "False"] then .ok false
  else .error .malformed

end Stepwise.Number
