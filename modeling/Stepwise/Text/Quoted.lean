import Stepwise.Text.Octets
import Stepwise.Text.Printable

/-!
# Text - Quoted strings

Two spellings of a text in double quotes.  That of a string constant has a
backslash before a double quote or a backslash, and `\n` and `\t` for a line
break and a tab; every other character stands for itself.  In an escaped string
every character is visible: printable characters stand for themselves, and the
others are written as a letter or a number after a backslash.

Main definitions:

- `Text.Quoted.quote`, the spelling of a string constant.
- `Text.hex`, a number in hexadecimal digits of a least width.
- `Text.Escaped.quote` and `Text.Escaped.quoteChar`, a text in double quotes and
  a character in single quotes.
- `Text.Escaped.quoteOctets`, octets in double quotes; an octet that belongs to no
  character is written as a number.
-/

namespace Stepwise.Text

/-! ## String constants -/

namespace Quoted

/-- The spelling of one character between the quotes. -/
def escapeChar : Char → List Char
  | '\n' => ['\\', 'n']
  | '\t' => ['\\', 't']
  | '"' => ['\\', '"']
  | '\\' => ['\\', '\\']
  | c => [c]

/-- The spelling of a text between the quotes. -/
def escape : List Char → List Char
  | [] => []
  | c :: cs => escapeChar c ++ escape cs

/-- A text in double quotes. -/
def quote (s : String) : String :=
  String.ofList ('"' :: escape s.toList ++ ['"'])

@[simp] theorem escape_nil : escape [] = [] := rfl

@[simp] theorem escape_cons (c : Char) (cs : List Char) :
    escape (c :: cs) = escapeChar c ++ escape cs := rfl

end Quoted

/-! ## Escaped strings -/

/-- A hexadecimal digit. -/
def hexDigit (n : Nat) : Char :=
  if n < 10 then Char.ofNat ('0'.toNat + n) else Char.ofNat ('a'.toNat + n - 10)

/-- The last `width` hexadecimal digits of a number. -/
def hex (n : Nat) : Nat → List Char
  | 0 => []
  | width + 1 => hex (n / 16) width ++ [hexDigit (n % 16)]

namespace Escaped

/-- The letter that stands for a control character after a backslash. -/
def letter? : Char → Option Char
  | '\x07' => some 'a'
  | '\x08' => some 'b'
  | '\x0c' => some 'f'
  | '\n' => some 'n'
  | '\r' => some 'r'
  | '\t' => some 't'
  | '\x0b' => some 'v'
  | _ => none

/-- The spelling of a character between quotes. -/
def escapeChar (quote c : Char) : List Char :=
  if c == quote || c == '\\' then ['\\', c]
  else if isPrintable c then [c]
  else
    match letter? c with
    | some d => ['\\', d]
    | none =>
      let n := c.toNat
      if n < 0x80 then '\\' :: 'x' :: hex n 2
      else if n < 0x10000 then '\\' :: 'u' :: hex n 4
      else '\\' :: 'U' :: hex n 8

/-- A text in double quotes. -/
def quote (s : String) : String :=
  String.ofList ('"' :: s.toList.flatMap (escapeChar '"') ++ ['"'])

/-- Octets in double quotes. -/
def quoteOctets (octets : List UInt8) : String :=
  let escape : Piece → List Char
    | .char c => escapeChar '"' c
    | .stray o => '\\' :: 'x' :: hex o.toNat 2
  String.ofList ('"' :: (Octets.pieces octets).flatMap escape ++ ['"'])

/-- A character in single quotes. -/
def quoteChar (c : Char) : String :=
  String.ofList ('\'' :: escapeChar '\'' c ++ ['\''])

end Escaped

end Stepwise.Text
