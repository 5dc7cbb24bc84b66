import Stepwise.Syntax.Error

/-!
# Syntax - Building nodes

Nodes are built with checks, from operands of unknown class, and every node
built gets an identity that was never given out before.

Main definitions:

- `Supply`, the identities and label numbers still to be given out, and the
  monad `Build` of computations that draw from it and may fail.
- `Build.binary`, `Build.invoke`, ...: one checked builder per variant.  A
  missing operand or one of the wrong class is refused.
- `Expr.Checked` and `Stmt.Checked`: the trees that checked builders produce.
-/

namespace Stepwise

/-! ## Supplies -/

/-- What can still be given out: node identities from `node` on and label
numbers after `labels`. -/
structure Supply where
  node : NodeId
  labels : Nat
  deriving DecidableEq, Repr, Inhabited

namespace Supply

/-- The supply that has given out nothing; zero is the identity of no node. -/
def initial : Supply := ⟨1, 0⟩

/-- The supply after one more identity was given out. -/
def next (s : Supply) : Supply := { s with node := s.node + 1 }

@[simp] theorem node_next (s : Supply) : s.next.node = s.node + 1 := rfl

@[simp] theorem labels_next (s : Supply) : s.next.labels = s.labels := rfl

end Supply

/-- Computations that draw identities from a supply and may fail with an `ε`. -/
abbrev Build (ε α : Type) := StateT Supply (Except ε) α

namespace Build

variable {ε : Type}

/-- An identity that was never given out before. -/
def fresh : Build ε NodeId :=
  fun s => .ok (s.node, s.next)

@[simp] theorem fresh_apply (s : Supply) : (fresh : Build ε NodeId) s = .ok (s.node, s.next) := rfl

/-- A pure result that may be an error. -/
def ofExcept {α : Type} : Except ε α → Build ε α
  | .ok a => pure a
  | .error e => throw e

/-- A computation with its errors seen as errors of another type. -/
def mapError {ε' α : Type} (f : ε → ε') (b : Build ε α) : Build ε' α :=
  fun s => (b s).mapError f

/-! ## Operands -/

/-- The kind of an operand, for a message. -/
def kindOf (n : Operand) : Except NodeError Kind :=
  match n.kind? with
  | some k => .ok k
  | none => .error .vacancy

/-- Why an operand does not fit a place. -/
def refuse (role : Role) : Operand → NodeError
  | .filled n => .misfit role n.kind
  | _ => .missing role

/-- The expression an operand is. -/
def asExpr (role : Role) : Operand → Except NodeError Expr
  | .filled (.expr e) => .ok e
  | n => .error (refuse role n)

/-- The statement an operand is. -/
def asStmt (role : Role) : Operand → Except NodeError Stmt
  | .filled (.stmt s) => .ok s
  | n => .error (refuse role n)

/-- The identifier an operand is. -/
def asIdentifier (role : Role) : Operand → Except NodeError Identifier
  | .filled (.expr (.identifier i)) => .ok i
  | n => .error (refuse role n)

/-- The label an operand is. -/
def asLabel (role : Role) : Operand → Except NodeError Label
  | .filled (.stmt (.label l)) => .ok l
  | n => .error (refuse role n)

/-- The expression an operand is, where none is needed. -/
def asOptional (role : Role) : Operand → Except NodeError (Option Expr)
  | .filled n => (asExpr role (.filled n)).map some
  | _ => .ok none

/-! ## Builders -/

/-- A name; it must not be empty. -/
def identifier (name : String) : Build NodeError Identifier := do
  if name.isEmpty then throw (.missing .identifierName)
  return ⟨← fresh, name⟩

/-- A constant. -/
def constant (value : Value) : Build ε Constant := do
  return ⟨← fresh, value⟩

/-- A constant expression. -/
def literal (value : Value) : Build ε Expr := do
  return .constant (← constant value)

/-- A binary expression with an operator of the language. -/
def binary (op : BinaryOp) (left right : Operand) : Build NodeError Expr := do
  unless op.known do throw (.unknownOperator op.code)
  let l ← ofExcept (asExpr .leftOperand left)
  let r ← ofExcept (asExpr .rightOperand right)
  return .binary (← fresh) op l r

/-- A binary expression with any operator and with or without operands, not
checked. -/
def binaryUnchecked (op : BinaryOp) (left right : Expr) : Build ε Expr := do
  return .binary (← fresh) op left right

/-- An assignment. -/
def assign (target value : Operand) : Build NodeError Expr := do
  let x ← ofExcept (asIdentifier .assignTarget target)
  let v ← ofExcept (asExpr .assignedValue value)
  return .assign (← fresh) x v

/-- An assignment that adds. -/
def addAssign (target value : Operand) : Build NodeError Expr := do
  let x ← ofExcept (asIdentifier .assignTarget target)
  let v ← ofExcept (asExpr .addedValue value)
  return .addAssign (← fresh) x v

/-- A postfix increment. -/
def increment (target : Operand) : Build NodeError Expr := do
  let x ← ofExcept (asIdentifier .incrementTarget target)
  return .increment (← fresh) x

/-- A call. -/
def invoke (callee : Operand) (args : List Operand) : Build NodeError Expr := do
  let f ← ofExcept (asIdentifier .callee callee)
  let es ← ofExcept (args.mapM (asExpr .argument))
  return .invoke (← fresh) f es

/-- An expression statement; without a value it is the empty statement. -/
def expression (value : Operand) : Build NodeError Stmt := do
  let v ← ofExcept (asOptional .statementValue value)
  return .expression (← fresh) v

/-- The empty statement. -/
def nop : Build ε Stmt := do
  return .expression (← fresh) none

/-- A declaration of an integer or a string, with or without an initializer. -/
def declaration (type : Datatype) (name value : Operand) : Build NodeError Stmt := do
  unless type.declarable do throw (.undeclarable type)
  let x ← ofExcept (asIdentifier .declaredName name)
  let v ← ofExcept (asOptional .initializer value)
  return .declaration (← fresh) type x v

/-- A block. -/
def block (stmts : List Operand) : Build NodeError Stmt := do
  let ss ← ofExcept (stmts.mapM (asStmt .blockStatement))
  return .block (← fresh) ss

/-- A loop. -/
def forLoop (init cond update body : Operand) : Build NodeError Stmt := do
  let i ← ofExcept (asStmt .forInit init)
  let c ← ofExcept (asStmt .forCond cond)
  let u ← ofExcept (asStmt .forUpdate update)
  let b ← ofExcept (asStmt .forBody body)
  return .forLoop (← fresh) i c u b

/-- A conditional statement. -/
def ifThen (cond body : Operand) : Build NodeError Stmt := do
  let c ← ofExcept (asExpr .ifCond cond)
  let b ← ofExcept (asStmt .ifBody body)
  return .ifThen (← fresh) c b

/-- A label. -/
def label (name : String) : Build ε Label := do
  return ⟨← fresh, name⟩

/-- A jump. -/
def jump (target : Operand) : Build NodeError Stmt := do
  let l ← ofExcept (asLabel .jumpTarget target)
  return .jump (← fresh) l

/-- A conditional jump. -/
def condJump (cond onTrue onFalse origin : Operand) : Build NodeError Stmt := do
  let c ← ofExcept (asExpr .jumpCond cond)
  let t ← ofExcept (asLabel .trueTarget onTrue)
  let f ← ofExcept (asLabel .falseTarget onFalse)
  let o ← ofExcept (asStmt .jumpOrigin origin)
  return .condJump (← fresh) c t f o

/-- An undeclaration. -/
def undeclaration (name : Operand) : Build NodeError Stmt := do
  let x ← ofExcept (asIdentifier .undeclaredName name)
  return .undeclaration (← fresh) x

end Build

/-! ## Checked trees -/

/-- A name as checked builders produce it. -/
def Identifier.Checked (i : Identifier) : Prop :=
  i.name ≠ ""

mutual

/-- An expression as checked builders produce it: names are not empty, operators
belong to the language and no operand is left out. -/
def Expr.Checked : Expr → Prop
  | .identifier i => i.Checked
  | .constant _ => True
  | .binary _ op l r => op.known = true ∧ l.Checked ∧ r.Checked
  | .assign _ x v => x.Checked ∧ v.Checked
  | .addAssign _ x v => x.Checked ∧ v.Checked
  | .increment _ x => x.Checked
  | .invoke _ f args => f.Checked ∧ Expr.AllChecked args
  | .hole _ => False

/-- A list of expressions as checked builders produce them. -/
def Expr.AllChecked : List Expr → Prop
  | [] => True
  | e :: es => e.Checked ∧ Expr.AllChecked es

end

/-- An optional expression as checked builders produce it. -/
def Expr.OptionChecked : Option Expr → Prop
  | none => True
  | some e => e.Checked

mutual

/-- A statement as checked builders produce it; moreover only integers and
strings are declared. -/
def Stmt.Checked : Stmt → Prop
  | .expression _ v => Expr.OptionChecked v
  | .declaration _ t x v => t.declarable = true ∧ x.Checked ∧ Expr.OptionChecked v
  | .block _ ss => Stmt.AllChecked ss
  | .forLoop _ i c u b => i.Checked ∧ c.Checked ∧ u.Checked ∧ b.Checked
  | .ifThen _ c b => c.Checked ∧ b.Checked
  | .label _ => True
  | .jump _ _ => True
  | .condJump _ c _ _ o => c.Checked ∧ o.Checked
  | .undeclaration _ x => x.Checked

/-- A list of statements as checked builders produce them. -/
def Stmt.AllChecked : List Stmt → Prop
  | [] => True
  | s :: ss => s.Checked ∧ Stmt.AllChecked ss

end

end Stepwise
