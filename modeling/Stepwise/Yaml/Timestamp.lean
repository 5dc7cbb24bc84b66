import Stepwise.Number.Literal

/-!
# Yaml - Dates and times

A plain scalar may be a date: a year of four digits, a month and a day, and after
them perhaps a time of day.

Main definitions:

- `isTimestamp`, whether a text is such a date.
-/

namespace Stepwise.Yaml.Timestamp

open Stepwise.Number

/-- A number of one or two digits, and what follows it. -/
def number? (cs : List Char) : Option (Nat × List Char) :=
  let digits := (cs.take 2).takeWhile Char.isDigit
  if digits.isEmpty then none else some (Literal.decimal digits, cs.drop digits.length)

/-- What follows a character. -/
def after? (c : Char) : List Char → Option (List Char)
  | d :: rest => if d == c then some rest else none
  | [] => none

/-- A date, and what follows it. -/
def date? (cs : List Char) : Option (List Char) := do
  let year := cs.takeWhile Char.isDigit
  if year.length ≠ 4 then none
  let (month, cs) ← number? (← after? '-' (cs.drop 4))
  let (day, cs) ← number? (← after? '-' cs)
  if month < 1 ∨ 12 < month ∨ day < 1 then none
  if Calendar.daysIn (Literal.decimal year) month < day then none
  return cs

/-- A time of day, and what follows it. -/
def time? (cs : List Char) : Option (List Char) := do
  let (hour, cs) ← number? cs
  let (minute, cs) ← number? (← after? ':' cs)
  let (second, cs) ← number? (← after? ':' cs)
  if 24 ≤ hour ∨ 60 ≤ minute ∨ 60 ≤ second then none
  return Calendar.skipFraction cs

/-- Whether a text is a date, alone, with a time after blanks, or with a time and
a zone after the letter `T`. -/
def isTimestamp (s : String) : Bool :=
  match date? s.toList with
  | none => false
  | some [] => true
  | some (mark :: rest) =>
    if mark == 'T' || mark == 't' then (time? rest).any Calendar.isZone
    else if mark == ' ' then time? (rest.dropWhile (· == ' ')) == some []
    else false

end Stepwise.Yaml.Timestamp
