import Stepwise.Syntax.Basic
import Stepwise.Yaml.Node

/-!
# Program - Nodes from statements

Every source statement and every expression has a node that describes it: a
mapping with one key, which names its kind.  Parts that are absent are left out.

Main definitions:

- `Expr.encode` and `Stmt.encode`, the node of an expression and of a statement.
- `encodeProgram`, the node of a list of statements.
-/

namespace Stepwise

namespace Encode

/-- A text. -/
def text (s : String) : Yaml.Node := .scalar 0 "!!str" s

/-- An integer. -/
def number (n : Int64) : Yaml.Node := .scalar 0 "!!int" (toString n.toInt)

/-- The value of a key that says nothing more. -/
def present : Yaml.Node := .scalar 0 "!!bool" "true"

/-- A list. -/
def list (items : List Yaml.Node) : Yaml.Node := .sequence 0 "!!seq" items

/-- A mapping. -/
def mapping (entries : List (String × Yaml.Node)) : Yaml.Node :=
  .mapping 0 "!!map" (entries.flatMap fun (k, v) => [text k, v])

/-- A node of a kind. -/
def node (kind : String) (body : Yaml.Node) : Yaml.Node := mapping [(kind, body)]

/-- The kind of a binary expression. -/
def operator : BinaryOp → String
  | .and => "and"
  | .le => "le"
  | .eq => "eq"
  | .other _ => "other"

/-- The node of a constant. -/
def constant : Value → Yaml.Node
  | .int n => node "int" (number n)
  | .string s => node "string" (text s)
  | .null => node "nullstr" present
  | .void => node "void" present
  | .other _ => node "other" present

end Encode

mutual

/-- The node of an expression. -/
def Expr.encode : Expr → Yaml.Node
  | .identifier i => Encode.node "ident" (Encode.text i.name)
  | .constant c => Encode.constant c.value
  | .binary _ op l r => Encode.node (Encode.operator op) (Encode.list [l.encode, r.encode])
  | .assign _ x v =>
    Encode.node "assign" (Encode.mapping [("name", Encode.text x.name), ("value", v.encode)])
  | .addAssign _ x v =>
    Encode.node "add_assign" (Encode.mapping [("name", Encode.text x.name), ("value", v.encode)])
  | .increment _ x => Encode.node "inc" (Encode.text x.name)
  | .invoke _ f args =>
    Encode.node "call" (Encode.mapping (("name", Encode.text f.name) ::
      match args with
      | [] => []
      | args => [("args", Encode.list (Expr.encodeAll args))]))
  | .hole _ => Encode.node "other" Encode.present

/-- The nodes of a list of expressions. -/
def Expr.encodeAll : List Expr → List Yaml.Node
  | [] => []
  | e :: es => e.encode :: Expr.encodeAll es

end

/-- The node of an expression under a key, if there is an expression. -/
def Expr.encodeOption (key : String) : Option Expr → List (String × Yaml.Node)
  | some e => [(key, e.encode)]
  | none => []

mutual

/-- The node of a source statement. -/
def Stmt.encode : Stmt → Yaml.Node
  | .expression _ none => Encode.node "nop" Encode.present
  | .expression _ (some e) => Encode.node "expr" e.encode
  | .declaration _ t x v =>
    Encode.node "declare" (Encode.mapping (("type", Encode.text t.text) ::
      ("name", Encode.text x.name) :: Expr.encodeOption "value" v))
  | .block _ ss => Encode.node "block" (Encode.list (Stmt.encodeAll ss))
  | .ifThen _ c b => Encode.node "if" (Encode.mapping [("cond", c.encode), ("body", b.encode)])
  | .forLoop _ i c u b =>
    Encode.node "for" (Encode.mapping [("init", i.encode), ("cond", c.encode),
      ("update", u.encode), ("body", b.encode)])
  | .label _ => Encode.node "label" Encode.present
  | .jump .. => Encode.node "jump" Encode.present
  | .condJump .. => Encode.node "condjump" Encode.present
  | .undeclaration .. => Encode.node "undeclare" Encode.present

/-- The nodes of a list of statements. -/
def Stmt.encodeAll : List Stmt → List Yaml.Node
  | [] => []
  | s :: ss => s.encode :: Stmt.encodeAll ss

end

/-- The node of a list of statements. -/
def encodeProgram (ss : List Stmt) : Yaml.Node := Encode.list (Stmt.encodeAll ss)

end Stepwise
