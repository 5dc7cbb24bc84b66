import Stepwise.Text.Octets

/-!
# Text - Lines and words

Octets are read line by line.  A line ends with a line feed, and a carriage return
before it belongs to the end.  What follows the last line feed is a line as it
stands.  A line of more than a number of octets is cut into several.  White space
of every script divides a text into words.

Main definitions:

- `Line`, the octets of a line and whether it was cut.
- `Line.next?`, the first line of octets, and `Line.all`, all of them.
- `isSpace`, the white space of the Unicode standard.
- `trim`, a text without white space at its ends, and `words`, the runs between
  white space.
-/

namespace Stepwise.Text

/-- A line: its octets without its end, and whether more of it follows. -/
structure Line where
  octets : List UInt8
  cut : Bool
  deriving DecidableEq, Repr, Inhabited

namespace Line

/-- How many octets of a line, with its end, are read at a time. -/
def limit : Nat := 4096

/-- The octet of a line feed. -/
def lineFeed : UInt8 := 10

/-- The octet of a carriage return. -/
def carriageReturn : UInt8 := 13

/-- Octets without a carriage return at their end. -/
def withoutReturn (octets : List UInt8) : List UInt8 :=
  if octets.getLast? == some carriageReturn then octets.dropLast else octets

/-- The first line of octets, and what follows it.  A carriage return at a cut goes
to what follows. -/
def next? (octets : List UInt8) : Option (Line × List UInt8) :=
  let head := octets.take limit
  let line := head.takeWhile (· != lineFeed)
  if line.length < head.length then
    some (⟨withoutReturn line, false⟩, octets.drop (line.length + 1))
  else if line.length = limit then
    let line := withoutReturn line
    some (⟨line, true⟩, octets.drop line.length)
  else if line.isEmpty then none
  else some (⟨line, false⟩, [])

/-- Whether the first line of octets stays as it is, whatever octets follow. -/
def isComplete (octets : List UInt8) : Bool :=
  let head := octets.take limit
  head.contains lineFeed || head.length == limit

/-- The first lines of octets, as many as `fuel` allows. -/
def upTo (octets : List UInt8) : Nat → List Line
  | 0 => []
  | fuel + 1 =>
    match next? octets with
    | some (line, rest) => line :: upTo rest fuel
    | none => []

/-- The lines of octets. -/
def all (octets : List UInt8) : List Line := upTo octets octets.length

end Line

/-! ## White space -/

/-- Whether a character is white space. -/
def isSpace (c : Char) : Bool :=
  let n := c.toNat
  (0x09 ≤ n && n ≤ 0x0d) || n == 0x20 || n == 0x85 || n == 0xa0 || n == 0x1680 ||
    (0x2000 ≤ n && n ≤ 0x200a) || n == 0x2028 || n == 0x2029 || n == 0x202f || n == 0x205f ||
    n == 0x3000

/-- A text without the white space at its start and its end. -/
def trim (s : String) : String :=
  String.ofList ((s.toList.dropWhile isSpace).reverse.dropWhile isSpace).reverse

/-- Add a character to the first of several words. -/
def extendFirst (c : Char) : List (List Char) → List (List Char)
  | [] => [[c]]
  | w :: ws => (c :: w) :: ws

/-- The runs between white space; they are empty where white space stands at an
end or follows on white space. -/
def runs : List Char → List (List Char)
  | [] => [[]]
  | c :: cs => if isSpace c then [] :: runs cs else extendFirst c (runs cs)

/-- The words of a text. -/
def words (s : String) : List String :=
  ((runs s.toList).filter (!·.isEmpty)).map String.ofList

end Stepwise.Text
