import Stepwise.Number.Literal

/-!
# Number - Nearest fractions in 53 bits

A decimal number is read as the nearest number `m * 2 ^ e` with at most 53 bits
in `m`; of two that are equally near, the one with an even `m` is taken.

Main definitions:

- `divRound`, a quotient rounded to the nearest integer, a half to the even one.
- `Binary64`, the readings of a decimal number, and `Binary64.ofDecimal?`, which
  has none for a number beyond the largest one.
- `Binary64.ofText?`, the reading of decimal digits.
- `Binary64.toInt64?`, its whole part.
-/

namespace Stepwise.Number

/-- A quotient rounded to the nearest integer, a half to the even one. -/
def divRound (a b : Nat) : Nat :=
  let q := a / b
  let r := a % b
  if b < 2 * r || (2 * r == b && q % 2 == 1) then q + 1 else q

/-- A quotient of which the dividend is scaled down by a power of two. -/
def divScaled (a b : Nat) (e : Int) : Nat :=
  match e with
  | .ofNat n => divRound a (b * Nat.pow 2 n)
  | .negSucc n => divRound (a * Nat.pow 2 (n + 1)) b

/-- The whole part of a number scaled up by a power of two. -/
def scaleUp (m : Nat) (e : Int) : Nat :=
  match e with
  | .ofNat n => m * Nat.pow 2 n
  | .negSucc n => m / Nat.pow 2 (n + 1)

/-- The power of two by which a positive quotient has 53 bits, or the smallest
one there is. -/
def exponentOf (a b : Nat) : Int :=
  let e : Int := (a.log2 : Int) - b.log2 - 53
  let e := if Nat.pow 2 53 ≤ scaleUp a (-e) / b then e + 1 else e
  max e (-1074)

/-- What a real number is read as: the sign and the whole part of its nearest
fraction, or no finite number at all. -/
inductive Binary64 where
  | notANumber
  | infinite (negative : Bool)
  | finite (negative : Bool) (whole : Nat)
  deriving DecidableEq, Repr, Inhabited

namespace Binary64

/-- The reading of a quotient, unless it is beyond the largest number. -/
def ofQuotient? (negative : Bool) (a b : Nat) : Option Binary64 :=
  if a = 0 then some (.finite negative 0)
  else
    let e := exponentOf a b
    let whole := scaleUp (divScaled a b e) e
    if Nat.pow 2 1024 ≤ whole then none else some (.finite negative whole)

/-- The reading of `digits * 10 ^ exponent`, unless it is beyond the largest
number.  Magnitudes far out of range are settled without computing them. -/
def ofDecimal? (negative : Bool) (digits : Nat) (exponent : Int) : Option Binary64 :=
  let size : Int := (Nat.toDigits 10 digits).length + exponent
  if digits = 0 || size < -400 then some (.finite negative 0)
  else if 400 < size then none
  else
    match exponent with
    | .ofNat n => ofQuotient? negative (digits * Nat.pow 10 n) 1
    | .negSucc n => ofQuotient? negative digits (Nat.pow 10 (n + 1))

/-- The exponent after the digits of a real number. -/
def exponent? (cs : List Char) : Option Int :=
  match cs with
  | [] => some 0
  | e :: rest =>
    if e == 'e' || e == 'E' then
      let (negative, digits) := Literal.sign rest
      if digits.isEmpty || !digits.all Char.isDigit then none
      else some (Literal.signed negative (Literal.decimal digits))
    else none

/-- A real number in decimal digits, with a point or an exponent or neither. -/
def ofText? (cs : List Char) : Option Binary64 := do
  let (negative, cs) := Literal.sign cs
  let whole := cs.takeWhile Char.isDigit
  let cs := cs.drop whole.length
  let pointed := cs.head? == some '.'
  let cs := if pointed then cs.drop 1 else cs
  let fraction := if pointed then cs.takeWhile Char.isDigit else []
  if whole.isEmpty && fraction.isEmpty then none
  let exponent ← exponent? (cs.drop fraction.length)
  ofDecimal? negative (Literal.decimal (whole ++ fraction))
    (exponent - fraction.length)

/-- The whole part as a 64-bit integer, for numbers up to `2 ^ 63`.  A magnitude
that no 64-bit integer has becomes the least one. -/
def toInt64? : Binary64 → Option Int
  | notANumber => none
  | infinite negative => if negative then some (-(int64Bound : Int)) else none
  | finite true whole => some (-((min whole int64Bound : Nat) : Int))
  | finite false whole =>
    if whole < int64Bound then some whole
    else if whole = int64Bound then some (-(int64Bound : Int))
    else none

end Binary64

end Stepwise.Number
