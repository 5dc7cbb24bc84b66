import Stepwise.Number.Binary64
import Stepwise.Number.Literal
import Stepwise.Yaml.Timestamp

/-!
# Yaml - What plain scalars mean

A scalar without a tag is null, a truth value, an integer, a real number, a date
or a text, by its spelling.  A scalar with a tag must have the meaning that the
tag names.

Main definitions:

- `Meaning`, the meanings, and `Meaning.tag`, the tag each one has.
- `Meaning.ofText`, the meaning of a spelling.
- `Meaning.shortTag`, the short form of a tag.
- `Meaning.ofTagged?`, the meaning of a spelling under a tag.
-/

namespace Stepwise.Yaml

open Stepwise.Number

/-- What a scalar stands for. -/
inductive Meaning where
  | null
  | bool (value : Bool)
  | integer (value : Int)
  | real (value : Binary64)
  | timestamp
  | text
  deriving DecidableEq, Repr, Inhabited

namespace Meaning

/-- The tag of a meaning. -/
def tag : Meaning → String
  | null => "!!null"
  | bool _ => "!!bool"
  | integer _ => "!!int"
  | real _ => "!!float"
  | timestamp => "!!timestamp"
  | text => "!!str"

/-- The spellings that stand for a value as a whole. -/
def word? (s : String) : Option Meaning :=
  if s ∈ ["", "~", "null", "Null", "NULL"] then some .null
  else if s ∈ ["true", "True", "TRUE"] then some (.bool true)
  else if s ∈ ["false", "False", "FALSE"] then some (.bool false)
  else if s ∈ [".nan", ".NaN", ".NAN"] then some (.real .notANumber)
  else if s ∈ [".inf", ".Inf", ".INF", "+.inf", "+.Inf", "+.INF"] then
    some (.real (.infinite false))
  else if s ∈ ["-.inf", "-.Inf", "-.INF"] then some (.real (.infinite true))
  else none

/-! ## Numbers -/

/-- Whether every underscore stands between two digits; `last` is the character
before. -/
def underscoresFit (last : Char) : List Char → Bool
  | [] => last != '_'
  | c :: cs =>
    (if c == '_' then last.isDigit else last != '_' || c.isDigit) && underscoresFit c cs

/-- A real number whose digits may be set apart by underscores. -/
def spacedReal? (cs : List Char) : Option Binary64 :=
  if underscoresFit '.' cs then Binary64.ofText? (cs.filter (· != '_')) else none

/-- An integer of 64 bits after a base mark with a sign of its own. -/
def marked? (cs : List Char) : Option Int := do
  let n ←
    match cs with
    | '0' :: 'b' :: rest => Literal.integerIn? 2 rest
    | '0' :: 'o' :: rest => Literal.integerIn? 8 rest
    | _ => none
  if fitsInt64 n then some n else none

/-- A number: an integer of 64 bits, with a sign or without, or a real number.
Underscores between digits are ignored. -/
def number? (s : String) : Option Meaning :=
  let cs := s.toList.filter (· != '_')
  let small := (Literal.integer? cs).filter fitsInt64
  let large := (Literal.natural? cs).filter (· < wordBound)
  match small, large with
  | some n, _ => some (.integer n)
  | none, some n => some (.integer n)
  | none, none =>
    match Binary64.ofText? cs with
    | some r => some (.real r)
    | none => (marked? cs).map .integer

/-! ## Resolution -/

/-- The meaning of a spelling.  The first character tells what to try; dates are
tried where `dated` allows it. -/
def ofSpelling (dated : Bool) (s : String) : Meaning :=
  match s.toList.head? with
  | none => .null
  | some c =>
    if c ∈ ['y', 'Y', 'n', 'N', 't', 'T', 'f', 'F', 'o', 'O', '~'] then (word? s).getD .text
    else if c == '.' then
      match word? s with
      | some m => m
      | none => ((spacedReal? s.toList).map .real).getD .text
    else if c.isDigit || c == '+' || c == '-' then
      match word? s with
      | some m => m
      | none =>
        if dated && Timestamp.isTimestamp s then .timestamp
        else (number? s).getD .text
    else .text

/-- The meaning of a plain scalar without a tag. -/
def ofText (s : String) : Meaning := ofSpelling true s

/-- The tags that name a meaning. -/
def namedTags : List String :=
  ["!!str", "!!bool", "!!int", "!!float", "!!null", "!!timestamp"]

/-- The short form of a tag: the tags of the standard start with two exclamation
marks. -/
def shortTag (tag : String) : String :=
  let standard := "tag:yaml.org,2002:".toList
  if standard.isPrefixOf tag.toList then "!!" ++ String.ofList (tag.toList.drop standard.length)
  else tag

/-- The meaning of a spelling under a tag: the one that the tag names, where the
spelling has it.  Without a tag the spelling alone counts, a tag that names no
meaning leaves a text, and an integer may stand for a real number. -/
def ofTagged? (tag s : String) : Option Meaning :=
  if tag == "" then some (ofText s)
  else if tag ∉ namedTags || tag == "!!str" then some .text
  else
    let m := ofSpelling (tag == "!!timestamp") s
    if m.tag == tag then some m
    else
      match m with
      | .integer n =>
        if tag == "!!float" && fitsInt64 n then
          (Binary64.ofDecimal? (n < 0) n.natAbs 0).map .real
        else none
      | _ => none

end Meaning

end Stepwise.Yaml
