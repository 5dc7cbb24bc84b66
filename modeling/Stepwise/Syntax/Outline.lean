import Stepwise.Syntax.Error
import Stepwise.Syntax.Walk
import Stepwise.Text.Quoted

/-!
# Syntax - Descriptions and outlines

A one-line description of a node, and the outline of a program: an indented tree
with one description per line.

Main definitions:

- `Value.text`, the spelling of a constant.
- `Node.describe` and `Operand.describe?`.
- `Outline`, a tree of texts, and `Outline.render`, its drawing.
- `outline`, the outline of a list of statements under a title.
-/

namespace Stepwise

/-! ## Descriptions -/

/-- The spelling of a value: the decimal integer, the quoted string, `NULL`, or
nothing. -/
def Value.text : Value → String
  | int n => toString n.toInt
  | string s => Text.Quoted.quote s
  | null => "NULL"
  | void => ""
  | other _ => ""

/-- A node in one line, without its children. -/
def Node.describe : Node → String
  | expr (.identifier i) => "identifier " ++ i.name
  | expr (.constant c) => "constant " ++ c.value.datatype.text ++ " " ++ c.value.text
  | expr (.binary _ op _ _) => "binary " ++ op.text
  | expr (.invoke _ f _) => "invoke " ++ f.name
  | stmt (.declaration _ t _ _) => "declaration " ++ t.text
  | stmt (.label l) => "label " ++ l.name
  | stmt (.jump _ l) => "jump " ++ l.name
  | stmt (.condJump _ _ t f _) => "conditional-jump " ++ t.name ++ "/" ++ f.name
  | n => n.kind.name

/-- Whether all that the description of a node names has a spelling. -/
def Node.spelled : Node → Bool
  | expr (.constant c) => c.value.datatype.spelled
  | expr (.binary _ op _ _) => op.spelled
  | stmt (.declaration _ t _ _) => t.spelled
  | _ => true

/-- An operand in one line.  Where the description needs what a node holds, an
empty place has none; nor has a node with a code that is not spelled. -/
def Operand.describe? : Operand → Option String
  | .empty => some Kind.absent.name
  | .filled n => if n.spelled then some n.describe else none
  | .vacant v =>
    match v with
    | .identifier | .constant | .binary | .invoke | .declaration | .label | .jump
    | .condJump => none
    | v => some v.name

/-! ## Outlines -/

/-- A tree of texts. -/
inductive Outline where
  | item (text : String) (items : List Outline)
  deriving Inhabited

namespace Outline

/-- The lines of a text. -/
def textLines (s : String) : List String :=
  s.splitOn "\n"

/-- One text below an indentation.  A text of several lines goes on below the
branch it hangs on. -/
def renderText (indent text : String) (last : Bool) : String :=
  match textLines text with
  | [] => ""
  | first :: more =>
    let branch := if last then "└── " else "├── "
    let below := if last then "    " else "│   "
    indent ++ branch ++ first ++ "\n" ++
      String.join (more.map fun line => indent ++ below ++ line ++ "\n")

mutual

/-- The items of a tree below an indentation. -/
def renderItems (indent : String) : List Outline → String
  | [] => ""
  | t :: ts => t.renderItem indent ts.isEmpty ++ renderItems indent ts

/-- One item of a tree below an indentation. -/
def renderItem (indent : String) (last : Bool) : Outline → String
  | item text items =>
    renderText indent text last ++
      renderItems (indent ++ if last then "    " else "│   ") items

end

/-- The drawing of a tree: the title on top and a line per item. -/
def render : Outline → String
  | item text items => text ++ "\n" ++ renderItems "" items

end Outline

/-- A name as an outline. -/
def Identifier.outline (i : Identifier) : Outline :=
  .item i.node.describe []

mutual

/-- The outline of an expression: one item, or none for a hole. -/
def Expr.outline : Expr → List Outline
  | .identifier i => [i.outline]
  | .constant c => [.item (Node.describe (.expr (.constant c))) []]
  | .binary id op l r =>
    [.item (Node.describe (.expr (.binary id op l r))) (l.outline ++ r.outline)]
  | .assign id x v => [.item (Node.describe (.expr (.assign id x v))) (x.outline :: v.outline)]
  | .addAssign id x v =>
    [.item (Node.describe (.expr (.addAssign id x v))) (x.outline :: v.outline)]
  | .increment id x => [.item (Node.describe (.expr (.increment id x))) [x.outline]]
  | .invoke id f args =>
    [.item (Node.describe (.expr (.invoke id f args))) (f.outline :: Expr.outlines args)]
  | .hole _ => []

/-- The outlines of a list of expressions. -/
def Expr.outlines : List Expr → List Outline
  | [] => []
  | e :: es => e.outline ++ Expr.outlines es

end

/-- The outline of an optional expression, if there is one. -/
def Expr.optionOutlines : Option Expr → List Outline
  | none => []
  | some e => e.outline

mutual

/-- The outline of a statement. -/
def Stmt.outline : Stmt → Outline
  | .expression id v => .item (Node.describe (.stmt (.expression id v))) (Expr.optionOutlines v)
  | .declaration id t x v =>
    .item (Node.describe (.stmt (.declaration id t x v))) (x.outline :: Expr.optionOutlines v)
  | .block id ss => .item (Node.describe (.stmt (.block id ss))) (Stmt.outlines ss)
  | .forLoop id i c u b =>
    .item (Node.describe (.stmt (.forLoop id i c u b))) [i.outline, c.outline, u.outline, b.outline]
  | .ifThen id c b => .item (Node.describe (.stmt (.ifThen id c b))) (c.outline ++ [b.outline])
  | .label l => .item (Node.describe (.stmt (.label l))) []
  | .jump id l => .item (Node.describe (.stmt (.jump id l))) []
  | .condJump id c t f o => .item (Node.describe (.stmt (.condJump id c t f o))) c.outline
  | .undeclaration id x => .item (Node.describe (.stmt (.undeclaration id x))) [x.outline]

/-- The outlines of a list of statements. -/
def Stmt.outlines : List Stmt → List Outline
  | [] => []
  | s :: ss => s.outline :: Stmt.outlines ss

end

/-- The outline of a place for a statement.  It fails where a description does. -/
def Slot.outline : Slot Stmt → Except NodeError Outline
  | .filled s => if s.nodes.all Node.spelled then .ok s.outline else .error .unspelled
  | s =>
    match Operand.describe? (s.map .stmt) with
    | some text => .ok (.item text [])
    | none => .error .vacancy

/-- The drawing of a program under a title. -/
def outline (title : String) (program : List Stmt) : String :=
  (Outline.item title (Stmt.outlines program)).render

/-- The drawing of a list of places for statements under a title. -/
def outlineSlots (title : String) (program : List (Slot Stmt)) : Except NodeError String := do
  return (Outline.item title (← program.mapM Slot.outline)).render

end Stepwise
