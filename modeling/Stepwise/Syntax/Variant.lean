/-!
# Syntax - Variants of nodes

The sixteen forms a node can have, with their names.
-/

namespace Stepwise

/-- The forms a node can have. -/
inductive Variant where
  | identifier
  | constant
  | binary
  | assign
  | addAssign
  | increment
  | invoke
  | expression
  | declaration
  | block
  | forLoop
  | ifThen
  | label
  | jump
  | condJump
  | undeclaration
  deriving DecidableEq, Repr, Inhabited

namespace Variant

/-- The name of a variant. -/
def name : Variant → String
  | identifier => "identifier"
  | constant => "constant"
  | binary => "binary"
  | assign => "assign"
  | addAssign => "add-assign"
  | increment => "increment"
  | invoke => "invoke"
  | expression => "expression-statement"
  | declaration => "declaration"
  | block => "block"
  | forLoop => "for-loop"
  | ifThen => "if"
  | label => "label"
  | jump => "jump"
  | condJump => "conditional-jump"
  | undeclaration => "undeclaration"

/-- Every variant, in the order in which they are listed. -/
def all : List Variant :=
  [identifier, constant, binary, assign, addAssign, increment, invoke, expression,
    declaration, block, forLoop, ifThen, label, jump, condJump, undeclaration]

/-- The variant of a name. -/
def ofName? (name : String) : Option Variant :=
  all.find? (·.name == name)

/-- Whether nodes of a variant are statements; the others are expressions. -/
def isStmt : Variant → Bool
  | expression => true
  | declaration => true
  | block => true
  | forLoop => true
  | ifThen => true
  | label => true
  | jump => true
  | condJump => true
  | undeclaration => true
  | _ => false

end Variant

end Stepwise
