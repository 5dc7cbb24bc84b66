/-!
# Text - Octets

Texts that come from outside are octets, and not all octets make up characters.
An octet that belongs to no character is kept as a piece of its own.  Octets may
be written in base 64, in groups of four characters with six bits each; line
breaks are ignored there, and the last group is filled up with equal signs.

Main definitions:

- `Piece`, a character or a stray octet, and `Octets.pieces`, the pieces of a list
  of octets.
- `Octets.lossy`, the text in which every stray octet is a replacement character.
- `Octets.ofText`, the octets of a text.
- `Base64.decode?`, the text that is written in base 64.
-/

namespace Stepwise.Text

/-- A character, or an octet that belongs to none. -/
inductive Piece where
  | char (c : Char)
  | stray (octet : UInt8)
  deriving DecidableEq, Repr, Inhabited

namespace Octets

/-- The octets of a text. -/
def ofText (s : String) : List UInt8 := s.toUTF8.data.toList

/-- Whether an octet continues a character. -/
def isTail (o : UInt8) : Bool := 0x80 ≤ o && o ≤ 0xBF

/-- The character of a number that the first octet of a character starts and
further ones continue, six bits each. -/
def joined (high : Nat) (tails : List UInt8) : Char :=
  Char.ofNat (tails.foldl (fun n o => n * 64 + (o.toNat - 0x80)) high)

/-- The character that octets start with, and how many octets it takes.  Every
character is written with as few octets as it can be. -/
def charAt? : List UInt8 → Option (Char × Nat)
  | [] => none
  | a :: rest =>
    if a < 0x80 then some (Char.ofNat a.toNat, 1)
    else
      match rest with
      | [] => none
      | b :: rest =>
        if 0xC2 ≤ a && a ≤ 0xDF then
          if isTail b then some (joined (a.toNat - 0xC0) [b], 2) else none
        else
          match rest with
          | [] => none
          | c :: rest =>
            if 0xE0 ≤ a && a ≤ 0xEF then
              let fits := (a != 0xE0 || 0xA0 ≤ b) && (a != 0xED || b ≤ 0x9F)
              if isTail b && isTail c && fits then
                some (joined (a.toNat - 0xE0) [b, c], 3)
              else none
            else
              match rest with
              | [] => none
              | d :: _ =>
                let fits := (a != 0xF0 || 0x90 ≤ b) && (a != 0xF4 || b ≤ 0x8F)
                if 0xF0 ≤ a && a ≤ 0xF4 && isTail b && isTail c && isTail d && fits then
                  some (joined (a.toNat - 0xF0) [b, c, d], 4)
                else none

/-- The pieces of a list of octets, of which the first `passed` belong to a
character that is known already. -/
def piecesAfter (passed : Nat) : List UInt8 → List Piece
  | [] => []
  | o :: rest =>
    match passed with
    | n + 1 => piecesAfter n rest
    | 0 =>
      match charAt? (o :: rest) with
      | some (c, width) => .char c :: piecesAfter (width - 1) rest
      | none => .stray o :: piecesAfter 0 rest

/-- The pieces of a list of octets. -/
def pieces (octets : List UInt8) : List Piece := piecesAfter 0 octets

/-- The characters of a list of octets; every stray octet is a replacement
character. -/
def lossyChars (octets : List UInt8) : List Char :=
  (pieces octets).map fun
    | .char c => c
    | .stray _ => '\ufffd'

/-- The text of a list of octets; every stray octet is a replacement character. -/
def lossy (octets : List UInt8) : String := String.ofList (lossyChars octets)

end Octets

/-! ## Base 64 -/

namespace Base64

/-- The six bits a character stands for. -/
def sextet? (c : Char) : Option Nat :=
  if 'A' ≤ c && c ≤ 'Z' then some (c.toNat - 'A'.toNat)
  else if 'a' ≤ c && c ≤ 'z' then some (c.toNat - 'a'.toNat + 26)
  else if '0' ≤ c && c ≤ '9' then some (c.toNat - '0'.toNat + 52)
  else if c == '+' then some 62
  else if c == '/' then some 63
  else none

/-- The number that sextets make up. -/
def join? (cs : List Char) : Option Nat :=
  cs.foldlM (fun n c => (sextet? c).map (n * 64 + ·)) 0

/-- The octets of groups of four characters. -/
def octets? : List Char → Option (List Nat)
  | [] => some []
  | [a, b, '=', '='] => (join? [a, b]).map fun n => [n / 16]
  | [a, b, c, '='] => (join? [a, b, c]).map fun n => [n / 1024, n / 4 % 256]
  | a :: b :: c :: d :: rest => do
    let n ← join? [a, b, c, d]
    let more ← octets? rest
    return n / 65536 :: n / 256 % 256 :: n % 256 :: more
  | _ => none

/-- The text that is written in a text; octets that make up no character are shown
as replacement characters. -/
def decode? (s : String) : Option String := do
  let octets ← octets? (s.toList.filter fun c => c != '\n' && c != '\r')
  return Octets.lossy (octets.map (·.toUInt8))

end Base64

end Stepwise.Text
