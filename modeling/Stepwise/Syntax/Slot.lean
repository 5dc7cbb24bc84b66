import Stepwise.Syntax.Basic

/-!
# Syntax - Variants, kinds and slots

The name of a node's variant appears in messages and in outlines.  A slot is a
place where a node is expected: nothing may stand there, or an empty place that
is still reserved for one variant, or a node.

Main definitions:

- `Expr.variant?`, `Stmt.variant` and `Node.kind`, which also tells binary
  operators apart.
- `Slot` and `Operand`, with `Operand.kind?`, which fails only for an empty
  place reserved for a binary expression, whose operator is not known.
- `Operand.expr` and `Operand.expr?`, between operands and the expressions that
  stand at the places of an unchecked tree.
-/

namespace Stepwise

/-! ## Variants -/

/-- The form of an expression; that of a hole is the one it is reserved for. -/
def Expr.variant? : Expr → Option Variant
  | .identifier _ => some .identifier
  | .constant _ => some .constant
  | .binary .. => some .binary
  | .assign .. => some .assign
  | .addAssign .. => some .addAssign
  | .increment .. => some .increment
  | .invoke .. => some .invoke
  | .hole reserved => reserved

/-- The form of a statement. -/
def Stmt.variant : Stmt → Variant
  | .expression .. => .expression
  | .declaration .. => .declaration
  | .block .. => .block
  | .forLoop .. => .forLoop
  | .ifThen .. => .ifThen
  | .label _ => .label
  | .jump .. => .jump
  | .condJump .. => .condJump
  | .undeclaration .. => .undeclaration

/-- The form of a node. -/
def Node.variant? : Node → Option Variant
  | .expr e => e.variant?
  | .stmt s => some s.variant

/-! ## Kinds -/

/-- What a message calls a node: nothing, a variant, or a binary expression with
an operator of the language. -/
inductive Kind where
  | absent
  | of (variant : Variant)
  | and
  | lessOrEqual
  | equal
  deriving DecidableEq, Repr, Inhabited

namespace Kind

/-- The name of a kind. -/
def name : Kind → String
  | absent => "nil"
  | of v => v.name
  | and => "and"
  | lessOrEqual => "less-than-or-equal"
  | equal => "equal"

end Kind

/-- The kind of what has a variant, or of what has none. -/
def Kind.ofVariant? : Option Variant → Kind
  | some v => .of v
  | none => .absent

/-- The kind of a binary expression with a given operator. -/
def BinaryOp.kind : BinaryOp → Kind
  | .and => .and
  | .le => .lessOrEqual
  | .eq => .equal
  | .other _ => .of .binary

/-- The kind of an expression. -/
def Expr.kind : Expr → Kind
  | .binary _ op _ _ => op.kind
  | e => .ofVariant? e.variant?

/-- The kind of a statement. -/
def Stmt.kind (s : Stmt) : Kind :=
  .of s.variant

/-- The kind of a node. -/
def Node.kind : Node → Kind
  | .expr e => e.kind
  | .stmt s => s.kind

/-! ## Slots -/

/-- A place where an `α` is expected. -/
inductive Slot (α : Type) where
  /-- Nothing stands there. -/
  | empty
  /-- Nothing stands there, but the place is reserved for one variant. -/
  | vacant (variant : Variant)
  /-- The place is taken. -/
  | filled (a : α)
  deriving Repr, Inhabited

/-- What is handed over where a node is expected. -/
abbrev Operand := Slot Node

namespace Slot

variable {α β : Type}

/-- What stands in a slot. -/
def get? : Slot α → Option α
  | filled a => some a
  | _ => none

/-- A slot with its content changed. -/
def map (f : α → β) : Slot α → Slot β
  | empty => empty
  | vacant v => vacant v
  | filled a => filled (f a)

/-- A slot that is taken or plainly empty. -/
def ofOption : Option α → Slot α
  | none => empty
  | some a => filled a

@[simp] theorem get?_filled (a : α) : (filled a).get? = some a := rfl

@[simp] theorem get?_empty : (empty : Slot α).get? = none := rfl

@[simp] theorem map_filled (f : α → β) (a : α) : (filled a).map f = filled (f a) := rfl

@[simp] theorem map_empty (f : α → β) : (empty : Slot α).map f = empty := rfl

@[simp] theorem map_vacant (f : α → β) (v : Variant) : (vacant v).map f = vacant v := rfl

@[simp] theorem ofOption_some (a : α) : ofOption (some a) = filled a := rfl

@[simp] theorem ofOption_none : ofOption (none : Option α) = empty := rfl

end Slot

namespace Operand

/-- An expression handed over as an operand; a hole is an empty place. -/
def expr : Expr → Operand
  | .hole none => .empty
  | .hole (some v) => .vacant v
  | e => .filled (.expr e)

/-- A statement handed over as an operand. -/
def stmt (s : Stmt) : Operand := .filled (.stmt s)

/-- An identifier handed over as an operand. -/
def ident (i : Identifier) : Operand := expr (.identifier i)

/-- A label handed over as an operand. -/
def label (l : Label) : Operand := stmt (.label l)

/-- A node handed over as an operand. -/
def node : Node → Operand
  | .expr e => expr e
  | .stmt s => stmt s

/-- The expression that stands at a place of an unchecked tree when an operand is
put there; a statement cannot be put there. -/
def expr? : Operand → Option Expr
  | .empty => some (.hole none)
  | .vacant v => if v.isStmt then none else some (.hole (some v))
  | .filled (.expr e) => some e
  | .filled (.stmt _) => none

/-- An optional expression handed over as an operand. -/
def optional : Option Expr → Operand
  | none => .empty
  | some e => expr e

/-- Whether two operands are the same: both empty, reserved for one variant, or
holding the same node. -/
def same : Operand → Operand → Bool
  | .empty, .empty => true
  | .vacant v, .vacant w => v == w
  | .filled a, .filled b => a.same b
  | _, _ => false

/-- The kind of an operand.  A place reserved for a binary expression has none,
because its operator is not known. -/
def kind? : Operand → Option Kind
  | .empty => some .absent
  | .vacant .binary => none
  | .vacant v => some (.of v)
  | .filled n => some n.kind

end Operand

end Stepwise
