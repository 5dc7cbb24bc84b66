import Stepwise.Syntax.Slot

/-!
# Syntax - Predicates on operands

The questions that can be asked about an operand.  A question about the variant
can be answered of an empty place that is reserved for one; a question about
what a node holds cannot.
-/

namespace Stepwise

/-- The questions that can be asked about an operand. -/
inductive Predicate where
  | isVariant (variant : Variant)
  | isExpr
  | isStmt
  | isAnd
  | isLessOrEqual
  | isEqual
  | isInvokeOf (name : String)
  | hasLeft
  | hasRight
  | hasValue
  | hasCondition
  | isSource
  deriving DecidableEq, Repr, Inhabited

namespace Operand

/-- The variant of an operand, known also of a place reserved for one. -/
def variant? : Operand → Option Variant
  | .empty => none
  | .vacant v => some v
  | .filled n => n.variant?

/-- The operator of a binary expression; an empty place for one has none. -/
def hasOperator (op : BinaryOp) : Operand → Option Bool
  | .filled (.expr (.binary _ o _ _)) => some (o == op)
  | .vacant .binary => none
  | _ => some false

/-- Whether a predicate holds of an operand, where that can be told. -/
def holds? (n : Operand) : Predicate → Option Bool
  | .isVariant v => some (n.variant? == some v)
  | .isExpr => some (match n with | .filled (.expr _) => true | _ => false)
  | .isStmt => some (match n with | .filled (.stmt _) => true | _ => false)
  | .isAnd => n.hasOperator .and
  | .isLessOrEqual => n.hasOperator .le
  | .isEqual => n.hasOperator .eq
  | .isInvokeOf name =>
    match n with
    | .filled (.expr (.invoke _ f _)) => some (f.name == name)
    | .vacant .invoke => none
    | _ => some false
  | .hasLeft => some (n.variant? == some .binary)
  | .hasRight => some (n.variant? == some .binary)
  | .hasValue =>
    some (match n.variant? with
      | some .assign | some .addAssign | some .expression | some .declaration => true
      | _ => false)
  | .hasCondition =>
    some (match n.variant? with
      | some .forLoop | some .ifThen | some .condJump => true
      | _ => false)
  | .isSource => some (match n with | .filled (.stmt s) => s.isSource | _ => false)

end Operand

end Stepwise
