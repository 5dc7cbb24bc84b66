/-!
# Number - Integers, dates and times of day

An integer is written with an optional sign and digits of a base, which a letter
after a leading zero may give: `b`, `o` and `x` for 2, 8 and 16.  A leading zero
alone stands for base 8.  Dates, times of day and offsets from universal time are
made up of decimal numbers.

Main definitions:

- `digits?`, the value of digits of a base.
- `Literal.natural?` and `Literal.integer?`, without and with a sign.
- `fitsInt64`, whether an integer has 64 bits with a sign.
- `Calendar.isLeap` and `Calendar.daysIn`, the lengths of years and months.
- `Calendar.skipFraction`, what follows a fraction of a second, and
  `Calendar.isZone`, whether a text is an offset from universal time.
-/

namespace Stepwise.Number

/-- The value of a digit or a letter as a digit. -/
def digit? (c : Char) : Option Nat :=
  if '0' ≤ c && c ≤ '9' then some (c.toNat - '0'.toNat)
  else if 'a' ≤ c && c ≤ 'z' then some (c.toNat - 'a'.toNat + 10)
  else if 'A' ≤ c && c ≤ 'Z' then some (c.toNat - 'A'.toNat + 10)
  else none

/-- The value of digits of a base. -/
def digits? (base : Nat) (cs : List Char) : Option Nat :=
  cs.foldlM (fun n c => do
    let d ← digit? c
    if d < base then some (n * base + d) else none) 0

/-- The base that a letter after a leading zero gives. -/
def base? : Char → Option Nat
  | 'b' | 'B' => some 2
  | 'o' | 'O' => some 8
  | 'x' | 'X' => some 16
  | _ => none

namespace Literal

/-- The value of decimal digits. -/
def decimal (cs : List Char) : Nat :=
  cs.foldl (fun n c => n * 10 + (c.toNat - '0'.toNat)) 0

/-- The value of digits in the base that they start with. -/
def natural? (cs : List Char) : Option Nat :=
  match cs with
  | [] => none
  | '0' :: letter :: d :: rest =>
    match base? letter with
    | some b => digits? b (d :: rest)
    | none => digits? 8 (letter :: d :: rest)
  | '0' :: rest => digits? 8 rest
  | cs => digits? 10 cs

/-- A sign, and what follows it. -/
def sign (cs : List Char) : Bool × List Char :=
  match cs with
  | '-' :: rest => (true, rest)
  | '+' :: rest => (false, rest)
  | cs => (false, cs)

/-- A number with its sign. -/
def signed (negative : Bool) (n : Nat) : Int :=
  if negative then -n else n

/-- The value of digits after an optional sign, in the base that they start with. -/
def integer? (cs : List Char) : Option Int :=
  let (negative, cs) := sign cs
  (natural? cs).map (signed negative)

/-- The value of at least one digit of a base after an optional sign. -/
def integerIn? (base : Nat) (cs : List Char) : Option Int :=
  let (negative, cs) := sign cs
  if cs.isEmpty then none else (digits? base cs).map (signed negative)

end Literal

/-- The first number that has more than 63 bits. -/
def int64Bound : Nat := Nat.pow 2 63

/-- The first number that has more than 64 bits. -/
def wordBound : Nat := Nat.pow 2 64

/-- Whether an integer has 64 bits with a sign. -/
def fitsInt64 (n : Int) : Bool := -(int64Bound : Int) ≤ n && n < (int64Bound : Int)

/-! ## Dates and times of day -/

namespace Calendar

/-- Whether a year has a 29th of February. -/
def isLeap (year : Nat) : Bool :=
  year % 4 == 0 && (year % 100 != 0 || year % 400 == 0)

/-- How many days a month has. -/
def daysIn (year month : Nat) : Nat :=
  match month with
  | 2 => if isLeap year then 29 else 28
  | 4 | 6 | 9 | 11 => 30
  | _ => 31

/-- What follows a fraction of a second, if there is one. -/
def skipFraction (cs : List Char) : List Char :=
  match cs with
  | mark :: d :: rest =>
    if (mark == '.' || mark == ',') && d.isDigit then rest.dropWhile Char.isDigit else cs
  | cs => cs

/-- Whether a text is an offset from universal time. -/
def isZone (cs : List Char) : Bool :=
  match cs with
  | ['Z'] => true
  | [sign, a, b, ':', c, d] =>
    (sign == '+' || sign == '-') && [a, b, c, d].all Char.isDigit &&
      Literal.decimal [a, b] ≤ 24 && Literal.decimal [c, d] ≤ 60
  | _ => false

end Calendar

end Stepwise.Number
