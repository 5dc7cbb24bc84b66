import Stepwise.Syntax.Variant

/-!
# Syntax - Nodes of the stepped language

A tiny part of C: expressions over integers and strings, the structured
statements a program is written in, and the flat statements it is lowered to.

Every node carries an identity.  Two occurrences are the same node exactly when
their identities agree, so the evaluator can keep a statement and the view can
find it again in the source tree, even when another statement looks the same.

Main definitions:

- `Value`, `Expr` and `Stmt`, the values and the two classes of nodes.
- `Node`, an expression or a statement, with its identity `Node.id`.
- `Expr.shape` and `Stmt.shape` forget the identities; two trees are
  structurally equal when their shapes agree.
-/

namespace Stepwise

/-- The identity of a node. -/
abbrev NodeId := Nat

/-! ## Datatypes, values and operators -/

/-- The type of a constant or of a declared variable.  Codes outside the
language can be carried but neither declared nor computed with. -/
inductive Datatype where
  | int
  | string
  | void
  | other (code : Int)
  deriving DecidableEq, Repr, Inhabited

namespace Datatype

/-- Whether a datatype has a spelling; codes below those of the language have
none. -/
def spelled : Datatype → Bool
  | other code => 0 ≤ code
  | _ => true

/-- How a datatype is spelled in a program, or what a message has in the place of
a spelling that does not exist. -/
def text : Datatype → String
  | int => "int"
  | string => "char*"
  | void => "void"
  | other code =>
    if code < 0 then
      "%!s(PANIC=String method: runtime error: index out of range [" ++ toString code ++ "])"
    else "?"

/-- The datatype a source spelling names, if it names one. -/
def ofText? : String → Option Datatype
  | "int" => some int
  | "char*" => some string
  | "string" => some string
  | _ => none

/-- Only integers and strings can be declared. -/
def declarable : Datatype → Bool
  | int => true
  | string => true
  | _ => false

end Datatype

/-- What a constant stands for. -/
inductive Value where
  | int (n : Int64)
  | string (s : String)
  | null
  | void
  | other (code : Int)
  deriving DecidableEq, Repr, Inhabited

namespace Value

/-- The type of a value; `NULL` is a string. -/
def datatype : Value → Datatype
  | int _ => .int
  | string _ => .string
  | null => .string
  | void => .void
  | other code => .other code

/-- The integer that stands for a truth value. -/
def ofBool (b : Bool) : Value :=
  int (if b then 1 else 0)

/-- The truth of a value: an integer is true unless zero, a string unless
`NULL`; other values have none. -/
def truthy? : Value → Option Bool
  | int n => some (n != 0)
  | string _ => some true
  | null => some false
  | void => none
  | other _ => none

/-- The number a value counts as in arithmetic and comparisons: a string counts
as 99 and `NULL` as 0; other values have none. -/
def numeric? : Value → Option Int64
  | int n => some n
  | string _ => some 99
  | null => some 0
  | void => none
  | other _ => none

/-- The value of a variable declared without an initializer. -/
def zero : Datatype → Value
  | .string => null
  | _ => int 0

end Value

/-- Binary operators.  Codes outside the language can be carried by unchecked
trees but are refused wherever a node is built with checks. -/
inductive BinaryOp where
  | and
  | le
  | eq
  | other (code : Int)
  deriving DecidableEq, Repr, Inhabited

namespace BinaryOp

/-- Whether an operator has a spelling; codes below those of the language have
none. -/
def spelled : BinaryOp → Bool
  | other code => 0 ≤ code
  | _ => true

/-- How an operator is spelled in a program. -/
def text : BinaryOp → String
  | and => "&&"
  | le => "<="
  | eq => "=="
  | other _ => "?"

/-- Whether an operator belongs to the language. -/
def known : BinaryOp → Bool
  | other _ => false
  | _ => true

/-- The number by which an operator is reported. -/
def code : BinaryOp → Int
  | and => 0
  | le => 1
  | eq => 2
  | other code => code

end BinaryOp

/-! ## Nodes -/

/-- A variable or function name at one place of a program. -/
structure Identifier where
  id : NodeId
  name : String
  deriving DecidableEq, Repr, Inhabited

/-- A literal, or a value already computed. -/
structure Constant where
  id : NodeId
  value : Value
  deriving DecidableEq, Repr, Inhabited

/-- A jump target of lowered code. -/
structure Label where
  id : NodeId
  name : String
  deriving DecidableEq, Repr, Inhabited

/-- Expressions.  A hole stands for an operand that an unchecked expression was
built without; its place may be reserved for a variant. -/
inductive Expr where
  | identifier (ident : Identifier)
  | constant (const : Constant)
  | binary (id : NodeId) (op : BinaryOp) (left right : Expr)
  | assign (id : NodeId) (target : Identifier) (value : Expr)
  | addAssign (id : NodeId) (target : Identifier) (value : Expr)
  | increment (id : NodeId) (target : Identifier)
  | invoke (id : NodeId) (callee : Identifier) (args : List Expr)
  | hole (reserved : Option Variant)
  deriving Repr, Inhabited

/-- Statements.  The first five are written in programs; labels, jumps and
undeclarations arise by lowering.  The origin of a conditional jump is the
source statement whose condition it tests. -/
inductive Stmt where
  | expression (id : NodeId) (value : Option Expr)
  | declaration (id : NodeId) (type : Datatype) (name : Identifier) (value : Option Expr)
  | block (id : NodeId) (stmts : List Stmt)
  | forLoop (id : NodeId) (init cond update body : Stmt)
  | ifThen (id : NodeId) (cond : Expr) (body : Stmt)
  | label (label : Label)
  | jump (id : NodeId) (target : Label)
  | condJump (id : NodeId) (cond : Expr) (onTrue onFalse : Label) (origin : Stmt)
  | undeclaration (id : NodeId) (name : Identifier)
  deriving Repr, Inhabited

/-- A node of either class. -/
inductive Node where
  | expr (e : Expr)
  | stmt (s : Stmt)
  deriving Repr, Inhabited

namespace Expr

/-- The identity of an expression.  A hole is no node: zero is the identity of
none. -/
def id : Expr → NodeId
  | identifier i => i.id
  | constant c => c.id
  | binary id .. => id
  | assign id .. => id
  | addAssign id .. => id
  | increment id .. => id
  | invoke id .. => id
  | hole _ => 0

/-- The constant an expression is, if it is one. -/
def constant? : Expr → Option Constant
  | constant c => some c
  | _ => none

end Expr

namespace Stmt

/-- The identity of a statement. -/
def id : Stmt → NodeId
  | expression id _ => id
  | declaration id .. => id
  | block id _ => id
  | forLoop id .. => id
  | ifThen id .. => id
  | label l => l.id
  | jump id _ => id
  | condJump id .. => id
  | undeclaration id _ => id

/-- Whether a statement is a label, which marks a place and does nothing. -/
def isLabel : Stmt → Bool
  | label _ => true
  | _ => false

/-- Whether a statement is a block. -/
def isBlock : Stmt → Bool
  | block .. => true
  | _ => false

/-- Whether a statement may appear in a program before lowering. -/
def isSource : Stmt → Bool
  | expression .. => true
  | declaration .. => true
  | block .. => true
  | forLoop .. => true
  | ifThen .. => true
  | _ => false

/-- The name a statement declares, if it is a declaration. -/
def declared? : Stmt → Option Identifier
  | declaration _ _ name _ => some name
  | _ => none

end Stmt

namespace Node

/-- The identity of a node. -/
def id : Node → NodeId
  | expr e => e.id
  | stmt s => s.id

@[simp] theorem id_expr (e : Expr) : (expr e).id = e.id := rfl

@[simp] theorem id_stmt (s : Stmt) : (stmt s).id = s.id := rfl

/-- Whether two nodes are the same node. -/
def same (a b : Node) : Bool :=
  a.id == b.id

/-- Whether a node is an identifier. -/
def isIdentifier : Node → Bool
  | expr (.identifier _) => true
  | _ => false

end Node

/-! ## Structural equality -/

/-- A name with its identity forgotten. -/
def Identifier.shape (i : Identifier) : Identifier := { i with id := 0 }

/-- A constant with its identity forgotten. -/
def Constant.shape (c : Constant) : Constant := { c with id := 0 }

/-- A label with its identity forgotten. -/
def Label.shape (l : Label) : Label := { l with id := 0 }

mutual

/-- An expression with every identity forgotten. -/
def Expr.shape : Expr → Expr
  | .identifier i => .identifier i.shape
  | .constant c => .constant c.shape
  | .binary _ op l r => .binary 0 op l.shape r.shape
  | .assign _ x v => .assign 0 x.shape v.shape
  | .addAssign _ x v => .addAssign 0 x.shape v.shape
  | .increment _ x => .increment 0 x.shape
  | .invoke _ f args => .invoke 0 f.shape (Expr.shapes args)
  | .hole reserved => .hole reserved

/-- A list of expressions with every identity forgotten. -/
def Expr.shapes : List Expr → List Expr
  | [] => []
  | e :: es => e.shape :: Expr.shapes es

end

mutual

/-- A statement with every identity forgotten. -/
def Stmt.shape : Stmt → Stmt
  | .expression _ v => .expression 0 (v.map Expr.shape)
  | .declaration _ t x v => .declaration 0 t x.shape (v.map Expr.shape)
  | .block _ ss => .block 0 (Stmt.shapes ss)
  | .forLoop _ i c u b => .forLoop 0 i.shape c.shape u.shape b.shape
  | .ifThen _ c b => .ifThen 0 c.shape b.shape
  | .label l => .label l.shape
  | .jump _ l => .jump 0 l.shape
  | .condJump _ c t f o => .condJump 0 c.shape t.shape f.shape o.shape
  | .undeclaration _ x => .undeclaration 0 x.shape

/-- A list of statements with every identity forgotten. -/
def Stmt.shapes : List Stmt → List Stmt
  | [] => []
  | s :: ss => s.shape :: Stmt.shapes ss

end

end Stepwise
