import Stepwise.View.Highlight

/-!
# View - Colours

Text is coloured by control sequences around it.  A token has the colour of its
category, the statement being evaluated is underlined, and the part that the next
step reduces has a background.

Main definitions:

- `Style`, the codes of a control sequence, and `Style.paint`.
- `View.paint`, the text of a view, coloured or plain.
-/

namespace Stepwise

/-- The codes of a control sequence. -/
structure Style where
  codes : List Nat
  deriving DecidableEq, Repr, Inhabited

namespace Style

/-- A text between the sequence that sets a style and the one that ends it. -/
def paint (s : Style) (text : String) : String :=
  "\x1b[" ++ ";".intercalate (s.codes.map toString) ++ "m" ++ text ++ "\x1b[0m"

/-- The style of headings. -/
def faint : Style := ⟨[2]⟩

/-- The style of the statement being evaluated. -/
def active : Style := ⟨[4]⟩

/-- The style of the part that the next step reduces. -/
def focus : Style := ⟨[30, 43]⟩

end Style

/-- The style of a category, for those that have one. -/
def Category.style? : Category → Option Style
  | keyword => some ⟨[35, 1]⟩
  | identifier => some ⟨[37]⟩
  | numeral => some ⟨[36]⟩
  | string => some ⟨[32]⟩
  | operator => some ⟨[33]⟩
  | type => some ⟨[34]⟩
  | _ => none

/-- A text in a style, where text is coloured. -/
def paintIf (colored : Bool) (style : Option Style) (text : String) : String :=
  match style with
  | some s => if colored then s.paint text else text
  | none => text

/-- Whether a position lies in a range. -/
def Range.has (r : Range) (i : Int) : Bool := r.start ≤ i && i ≤ r.stop

namespace View

/-- The style of a token at a position.  The statement being evaluated is not
underlined in its white space. -/
def styleAt (v : View) (i : Nat) (t : Token) : Option Style :=
  if v.focus.any (·.has i) then some .focus
  else if v.range.any (·.has i) && t.category != .whitespace then some .active
  else t.category.style?

/-- The text of a view, coloured or plain. -/
def paint (v : View) (colored : Bool) : String :=
  String.join (v.tokens.mapIdx fun i t => paintIf colored (v.styleAt i t) t.text)

/-- The text of a range of a view. -/
def textOf (v : View) (r : Range) : String :=
  Token.join ((v.tokens.take (r.stop + 1).toNat).drop r.start.toNat)

end View

end Stepwise
