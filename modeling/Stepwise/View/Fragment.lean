import Stepwise.Syntax.Outline

/-!
# View - Source text in fragments

A program is printed as C text in fragments that remember the node they came
from, so that a node can be found again in the text.  Line breaks between
top-level statements come from no node.  A fragment that was not printed may also
come from an empty place that is reserved for a variant.

Main definitions:

- `Expr.fragments` and `Stmt.fragments`, the text of a node.
- `render`, the text of a program, and `source`, the text of a node as a string.
- `renderSlots`, where places for statements may be empty.
-/

namespace Stepwise

/-- A piece of text and what produced it. -/
structure Fragment where
  text : String
  owner : Operand
  deriving Inhabited

namespace Fragment

/-- A fragment of an expression. -/
def ofExpr (text : String) (e : Expr) : Fragment := ⟨text, .filled (.expr e)⟩

/-- A fragment of a statement. -/
def ofStmt (text : String) (s : Stmt) : Fragment := ⟨text, .filled (.stmt s)⟩

/-- The break after a top-level statement. -/
def lineBreak : Fragment := ⟨"\n", .empty⟩

/-- The text of a list of fragments. -/
def join (frags : List Fragment) : String :=
  String.join (frags.map (·.text))

/-- Two blanks per level of nesting. -/
def indentation (depth : Nat) : String :=
  String.ofList (List.replicate (2 * depth) ' ')

/-- Fragments without a closing semicolon that is a fragment of its own. -/
def dropSemicolon (frags : List Fragment) : List Fragment :=
  match frags.getLast? with
  | some f => if f.text = ";" then frags.dropLast else frags
  | none => frags

end Fragment

/-! ## Expressions -/

/-- The text of a name. -/
def Identifier.fragment (i : Identifier) : Fragment :=
  ⟨i.name, .filled i.node⟩

/-- The text of a constant; one of type void has none. -/
def Constant.fragments (c : Constant) : List Fragment :=
  if c.value.datatype = .void then [] else [.ofExpr c.value.text (.constant c)]

mutual

/-- The text of an expression. -/
def Expr.fragments : Expr → List Fragment
  | .identifier i => [i.fragment]
  | .constant c => c.fragments
  | .binary id op l r =>
    l.fragments ++ .ofExpr (" " ++ op.text ++ " ") (.binary id op l r) :: r.fragments
  | .assign id x v => x.fragment :: .ofExpr " = " (.assign id x v) :: v.fragments
  | .addAssign id x v => x.fragment :: .ofExpr " += " (.addAssign id x v) :: v.fragments
  | .increment id x => [x.fragment, .ofExpr "++" (.increment id x)]
  | .invoke id f args =>
    f.fragment ::
      match args with
      | [] => [.ofExpr "()" (.invoke id f [])]
      | e :: es =>
        .ofExpr "(" (.invoke id f (e :: es)) ::
          (e.fragments ++ (Expr.moreFragments (.ofExpr ", " (.invoke id f (e :: es))) es ++
            [.ofExpr ")" (.invoke id f (e :: es))]))
  | .hole _ => []

/-- The text of further arguments, each after a separator. -/
def Expr.moreFragments (separator : Fragment) : List Expr → List Fragment
  | [] => []
  | e :: es => separator :: (e.fragments ++ Expr.moreFragments separator es)

end

/-- The text of an optional expression. -/
def Expr.optionFragments : Option Expr → List Fragment
  | none => []
  | some e => e.fragments

/-! ## Statements -/

/-- The level of nesting of a body below its header. -/
def Stmt.bodyDepth (body : Stmt) (depth : Nat) : Nat :=
  if body.isBlock then depth else depth + 1

/-- The end of the header before a body. -/
def Stmt.closeHeader (body : Stmt) (depth : Nat) (owner : Stmt) : Fragment :=
  .ofStmt (if body.isBlock then ") " else ")\n" ++ Fragment.indentation (depth + 1)) owner

mutual

/-- The text of a statement at a level of nesting.  A block that is the body of
another statement stays on its line; any other body goes on a line of its own,
one level deeper.  The semicolon that closes the update of a loop is left out. -/
def Stmt.fragments (depth : Nat) : Stmt → List Fragment
  | .expression id v => Expr.optionFragments v ++ [.ofStmt ";" (.expression id v)]
  | .declaration id t x v =>
    .ofStmt (t.text ++ " ") (.declaration id t x v) :: x.fragment ::
      ((match v with
        | none => []
        | some e => .ofStmt " = " (.declaration id t x v) :: e.fragments) ++
        [.ofStmt ";" (.declaration id t x v)])
  | .block id ss =>
    match ss with
    | [] => [.ofStmt "\x7b\x7d" (.block id [])]
    | s :: more =>
      .ofStmt "\x7b\n" (.block id (s :: more)) ::
        .ofStmt (Fragment.indentation (depth + 1)) (.block id (s :: more)) ::
        (s.fragments (depth + 1) ++
          (Stmt.moreFragments (depth + 1)
              (.ofStmt ("\n" ++ Fragment.indentation (depth + 1)) (.block id (s :: more))) more ++
            [.ofStmt ("\n" ++ Fragment.indentation depth ++ "\x7d") (.block id (s :: more))]))
  | .ifThen id c b =>
    .ofStmt "if (" (.ifThen id c b) ::
      (c.fragments ++ b.closeHeader depth (.ifThen id c b) :: b.fragments (b.bodyDepth depth))
  | .forLoop id i c u b =>
    .ofStmt "for (" (.forLoop id i c u b) ::
      (i.fragments depth ++ .ofStmt " " (.forLoop id i c u b) ::
        (c.fragments depth ++ .ofStmt " " (.forLoop id i c u b) ::
          (Fragment.dropSemicolon (u.fragments depth) ++
            b.closeHeader depth (.forLoop id i c u b) :: b.fragments (b.bodyDepth depth))))
  | .label l => [.ofStmt (l.name ++ ":") (.label l)]
  | .jump id l => [.ofStmt ("goto " ++ l.name ++ ";") (.jump id l)]
  | .condJump id c t f o =>
    .ofStmt "if (" (.condJump id c t f o) ::
      (c.fragments ++
        [.ofStmt (") goto " ++ t.name ++ "; else goto " ++ f.name ++ ";") (.condJump id c t f o)])
  | .undeclaration id x =>
    [.ofStmt "undeclare " (.undeclaration id x), x.fragment, .ofStmt ";" (.undeclaration id x)]

/-- The text of further statements of a block, each after a separator. -/
def Stmt.moreFragments (depth : Nat) (separator : Fragment) : List Stmt → List Fragment
  | [] => []
  | s :: ss => separator :: (s.fragments depth ++ Stmt.moreFragments depth separator ss)

end

/-- The text of a node. -/
def Node.fragments : Node → List Fragment
  | expr e => e.fragments
  | stmt s => s.fragments 0

/-- The text of a node as a string. -/
def Node.source (n : Node) : String :=
  Fragment.join n.fragments

/-- The text of a program, one top-level statement after another. -/
def render (tree : List Stmt) : List Fragment :=
  tree.flatMap fun s => s.fragments 0 ++ [.lineBreak]

/-! ## What cannot be printed -/

/-- Whether an expression is a hole reserved for a variant. -/
def Expr.isReserved : Expr → Bool
  | .hole (some _) => true
  | _ => false

/-- What keeps a node from being printed: an operator without a spelling, or an
operand of which only the variant is known. -/
def Node.obstacle? : Node → Option NodeError
  | expr (.binary _ op l r) =>
    if !op.spelled then some .unspelled
    else if l.isReserved || r.isReserved then some .vacancy
    else none
  | _ => none

/-- The text of a node, unless something in it cannot be printed. -/
def Node.printed (n : Node) : Except NodeError (List Fragment) :=
  match n.nodes.findSome? Node.obstacle? with
  | some e => .error e
  | none => .ok n.fragments

/-- The text of an operand; nothing is printed where nothing stands, and what an
empty place reserved for a variant prints cannot be told. -/
def Operand.fragments : Operand → Except NodeError (List Fragment)
  | .empty => .ok []
  | .vacant _ => .error .vacancy
  | .filled n => n.printed

/-- The text of a list of places for statements. -/
def renderSlots (tree : List (Slot Stmt)) : Except NodeError (List Fragment) := do
  let parts ← tree.mapM fun s => Operand.fragments (s.map .stmt)
  return parts.flatMap (· ++ [.lineBreak])

end Stepwise
