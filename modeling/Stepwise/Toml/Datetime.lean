import Stepwise.Number.Literal
import Stepwise.Text.Quoted

/-!
# Toml - Dates and times

The grammar takes any digits for a date or a time, so a date or a time may not
exist.  Months and times of day are looked at first, then what follows the time,
and the day of the month last.

Main definitions:

- `DatetimeFault`, with its wording.
- `DatetimeFault.find?`, what is wrong with a date or a time.
-/

namespace Stepwise.Toml

open Stepwise.Number

/-- What is wrong with a date or a time. -/
inductive DatetimeFault where
  /-- A part has a number that it cannot have. -/
  | outOfRange (part : String)
  /-- A text after the time is no offset from universal time, or it stands with a
  day that does not exist. -/
  | extra (text : String)
  deriving DecidableEq, Repr, Inhabited

namespace DatetimeFault

/-- The wording of a fault. -/
def message (spelling : String) (f : DatetimeFault) : String :=
  let cause :=
    match f with
    | outOfRange part => part ++ " out of range"
    | extra text => "extra text: " ++ Text.Escaped.quote text
  "parsing time " ++ Text.Escaped.quote spelling ++ ": " ++ cause

/-- The number of the digits from a place on. -/
def numberAt (cs : List Char) (start width : Nat) : Nat :=
  Literal.decimal ((cs.drop start).take width)

/-- A fault of a part, unless a condition holds. -/
def checkPart (part : String) (fits : Bool) : Option DatetimeFault :=
  if fits then none else some (outOfRange part)

/-- Whether the month of a date is wrong. -/
def ofMonth (date : List Char) : Option DatetimeFault :=
  let month := numberAt date 5 2
  checkPart "month" (1 ≤ month && month ≤ 12)

/-- Whether the day of a date is wrong. -/
def ofDay (date : List Char) : Option DatetimeFault :=
  let day := numberAt date 8 2
  checkPart "day" (1 ≤ day && day ≤ Calendar.daysIn (numberAt date 0 4) (numberAt date 5 2))

/-- Whether a time of day is wrong. -/
def ofTime (time : List Char) : Option DatetimeFault :=
  checkPart "hour" (numberAt time 0 2 < 24) <|> checkPart "minute" (numberAt time 3 2 < 60) <|>
    checkPart "second" (numberAt time 6 2 < 60)

/-- What is wrong with a date, a date with a time, or a time. -/
def find? (spelling : String) : Option DatetimeFault :=
  let cs := spelling.toList
  if !cs.contains ':' then ofMonth cs <|> ofDay cs
  else if !cs.contains '-' then ofTime cs
  else
    let time := cs.drop 11
    let zone := Calendar.skipFraction (time.drop 8)
    let excess := if zone.isEmpty then none else some (extra (String.ofList zone))
    let early := ofMonth cs <|> ofTime time
    if early.isNone && (ofDay cs).isNone && Calendar.isZone zone then none
    else early <|> excess <|> ofDay cs

end DatetimeFault

end Stepwise.Toml
