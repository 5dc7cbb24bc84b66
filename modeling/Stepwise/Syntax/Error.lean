import Stepwise.Syntax.Slot

/-!
# Syntax - Errors about nodes

The ways in which building, changing or using a node can fail.  Each error is a
cause; its wording is `NodeError.message` and its class, by which callers tell
failures apart, is `NodeError.errorClass`.
-/

namespace Stepwise

/-- The classes of failures a caller can tell apart. -/
inductive ErrorClass where
  | invalidOperand
  | unsupportedNode
  | invalidConstant
  | undeclaredIdentifier
  | alreadyDeclared
  | unsupportedFunction
  | missingLabel
  | terminated
  | stepLimit
  | malformedProgram
  /-- The contents of an empty place were needed. -/
  | vacancy
  /-- A code without a spelling was to be written. -/
  | unspelled
  /-- A case that no checked tree reaches. -/
  | unreachable
  /-- A collection was looked up as if it were a key. -/
  | collectionKey
  | other
  deriving DecidableEq, Repr, Inhabited

namespace ErrorClass

/-- The words that end a message of a class, for the classes that have any. -/
def text : ErrorClass → String
  | invalidOperand => "invalid operand"
  | unsupportedNode => "unsupported node"
  | invalidConstant => "invalid constant"
  | undeclaredIdentifier => "undeclared identifier"
  | alreadyDeclared => "already declared"
  | unsupportedFunction => "unsupported function"
  | missingLabel => "missing label"
  | terminated => "program has terminated"
  | stepLimit => "step limit reached"
  | malformedProgram => "malformed program"
  | _ => ""

/-- Whether a failure is a breakdown: what was going on is given up at once, and
nothing is noted about it. -/
def isBreakdown : ErrorClass → Bool
  | vacancy => true
  | unspelled => true
  | unreachable => true
  | collectionKey => true
  | _ => false

end ErrorClass

/-! ## Places and what they accept -/

/-- What a place of a node accepts. -/
inductive Demand where
  | name
  | expression
  | statement
  | identifier
  | label
  deriving DecidableEq, Repr, Inhabited

/-- How a message names what a place accepts. -/
def Demand.text : Demand → String
  | name => "a name"
  | expression => "an expression"
  | statement => "a statement"
  | identifier => "an identifier"
  | label => "a label"

/-- The places of a node that are checked when it is built. -/
inductive Role where
  | identifierName
  | leftOperand
  | rightOperand
  | assignTarget
  | assignedValue
  | addedValue
  | incrementTarget
  | callee
  | argument
  | statementValue
  | declaredName
  | initializer
  | blockStatement
  | forInit
  | forCond
  | forUpdate
  | forBody
  | ifCond
  | ifBody
  | jumpTarget
  | jumpCond
  | trueTarget
  | falseTarget
  | jumpOrigin
  | undeclaredName
  deriving DecidableEq, Repr, Inhabited

namespace Role

/-- How a message names a place. -/
def text : Role → String
  | identifierName => "identifier name"
  | leftOperand => "left operand"
  | rightOperand => "right operand"
  | assignTarget => "assignment target"
  | assignedValue => "assigned value"
  | addedValue => "added value"
  | incrementTarget => "increment target"
  | callee => "callee"
  | argument => "argument"
  | statementValue => "statement value"
  | declaredName => "declared name"
  | initializer => "initializer"
  | blockStatement => "block statement"
  | forInit => "for initializer"
  | forCond => "for condition"
  | forUpdate => "for update"
  | forBody => "for body"
  | ifCond => "if condition"
  | ifBody => "if body"
  | jumpTarget => "jump target"
  | jumpCond => "jump condition"
  | trueTarget => "true target"
  | falseTarget => "false target"
  | jumpOrigin => "original statement"
  | undeclaredName => "undeclared name"

/-- What a place accepts. -/
def demand : Role → Demand
  | identifierName => .name
  | leftOperand | rightOperand | assignedValue | addedValue | argument | statementValue
  | initializer | ifCond | jumpCond => .expression
  | assignTarget | incrementTarget | callee | declaredName | undeclaredName => .identifier
  | blockStatement | forInit | forCond | forUpdate | forBody | ifBody | jumpOrigin => .statement
  | jumpTarget | trueTarget | falseTarget => .label

end Role

/-! ## Actions -/

/-- The parts of a node that can be replaced one at a time. -/
inductive Part where
  | left
  | right
  | value
  | condition
  | argument
  | arguments
  | identifier
  | initializer
  | update
  | body
  | statements
  deriving DecidableEq, Repr, Inhabited

/-- How a message names the replacement of a part. -/
def Part.text : Part → String
  | left => "WithLeft"
  | right => "WithRight"
  | value => "WithValue"
  | condition => "WithCondition"
  | argument => "WithArgument"
  | arguments => "WithArguments"
  | identifier => "WithIdentifier"
  | initializer => "WithInitializer"
  | update => "WithUpdate"
  | body => "WithBody"
  | statements => "WithStatements"

/-- What was tried on a node that does not support it. -/
inductive Action where
  | replacing (part : Part)
  | lowering
  | loweringCondition
  | reducing
  | stepping
  | locatingCondition
  deriving DecidableEq, Repr, Inhabited

/-- How a message introduces the node an action failed on. -/
def Action.text : Action → String
  | replacing part => part.text ++ " on "
  | lowering => "lowering "
  | loweringCondition => "lowering for condition "
  | reducing => "reducing "
  | stepping => "stepping "
  | locatingCondition => "condition of "

/-! ## Errors -/

/-- Failures of building, changing and using nodes. -/
inductive NodeError where
  /-- Nothing was given for a place. -/
  | missing (role : Role)
  /-- A place was given a node of the wrong class. -/
  | misfit (role : Role) (got : Kind)
  | unknownOperator (code : Int)
  | undeclarable (type : Datatype)
  | argumentPosition (position : Int) (count : Nat)
  | unsupported (action : Action) (kind : Kind)
  /-- A top-level statement was replaced by something else. -/
  | topLevel (kind : Kind)
  /-- The contents of an empty place were needed. -/
  | vacancy
  /-- A code without a spelling was to be written. -/
  | unspelled
  deriving DecidableEq, Repr, Inhabited

namespace NodeError

/-- The class of an error. -/
def errorClass : NodeError → ErrorClass
  | missing _ => .invalidOperand
  | misfit .. => .invalidOperand
  | unknownOperator _ => .invalidOperand
  | undeclarable _ => .invalidOperand
  | argumentPosition .. => .invalidOperand
  | unsupported .. => .unsupportedNode
  | topLevel _ => .invalidOperand
  | vacancy => .vacancy
  | unspelled => .unspelled

/-- What went wrong, without the words of the class. -/
def cause : NodeError → String
  | missing role => role.text ++ " is missing"
  | misfit role got => role.text ++ " is not " ++ role.demand.text ++ " (got " ++ got.name ++ ")"
  | unknownOperator code => "unknown binary operator " ++ toString code
  | undeclarable type => "cannot declare a " ++ type.text ++ " variable"
  | argumentPosition position count =>
    "argument " ++ toString position ++ " of " ++ toString count
  | unsupported action kind => action.text ++ kind.name
  | topLevel kind => "substituting " ++ kind.name ++ " at top level"
  | vacancy => ""
  | unspelled => ""

/-- The message of an error. -/
def message (e : NodeError) : String :=
  e.cause ++ ": " ++ e.errorClass.text

end NodeError

end Stepwise
