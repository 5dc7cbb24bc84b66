import Stepwise.Syntax.Error

/-!
# Machine - Errors of evaluation

The ways in which evaluating a program can fail, with their wording
`EvalError.message` and their class `EvalError.errorClass`.
-/

namespace Stepwise

/-- What was done with a name that is not in scope. -/
inductive NameUse where
  | reading
  | assigning
  | adding
  | incrementing
  | leaving
  deriving DecidableEq, Repr, Inhabited

/-- How a message introduces the name. -/
def NameUse.text : NameUse → String
  | reading => "reading "
  | assigning => "assigning "
  | adding => "adding to "
  | incrementing => "incrementing "
  | leaving => "leaving scope of "

/-- Failures of evaluation. -/
inductive EvalError where
  | node (error : NodeError)
  /-- A value of this type is neither true nor false. -/
  | noTruth (type : Datatype)
  /-- A value of this type does not count as a number. -/
  | noNumber (type : Datatype)
  | storingVoid (name : String)
  | noFormat
  | badFormat (type : Datatype) (text : String)
  | badArgument (type : Datatype)
  | undeclared (use : NameUse) (name : String)
  | alreadyDeclared (name : String)
  | unsupportedFunction (name : String)
  | missingLabel (name : String)
  | terminated
  | stepLimit (steps : Nat)
  | unhandledOperator (code : Int)
  deriving DecidableEq, Repr, Inhabited

namespace EvalError

/-- The class of an error. -/
def errorClass : EvalError → ErrorClass
  | node e => e.errorClass
  | noTruth _ => .invalidConstant
  | noNumber _ => .invalidConstant
  | storingVoid _ => .invalidConstant
  | noFormat => .invalidConstant
  | badFormat .. => .invalidConstant
  | badArgument _ => .invalidConstant
  | undeclared .. => .undeclaredIdentifier
  | alreadyDeclared _ => .alreadyDeclared
  | unsupportedFunction _ => .unsupportedFunction
  | missingLabel _ => .missingLabel
  | terminated => .terminated
  | stepLimit _ => .stepLimit
  | unhandledOperator _ => .unreachable

/-- The message of an error. -/
def message (e : EvalError) : String :=
  match e with
  | node e => e.message
  | noTruth type => ended ("truth value of " ++ type.text ++ " constant")
  | noNumber type => ended ("numeric value of " ++ type.text ++ " constant")
  | storingVoid name => ended ("storing a void value in " ++ name)
  | noFormat => ended "printf without a format"
  | badFormat type text => ended ("printf format is " ++ type.text ++ " " ++ text)
  | badArgument type => ended ("printf argument is " ++ type.text)
  | undeclared use name => ended (use.text ++ name)
  | alreadyDeclared name => ended ("declaring " ++ name)
  | unsupportedFunction name => ended ("calling " ++ name)
  | missingLabel name => ended ("jump to " ++ name)
  | terminated => ErrorClass.terminated.text
  | stepLimit steps => ended ("after " ++ toString steps ++ " steps")
  | unhandledOperator code => "unhandled binary operator: " ++ toString code
where
  /-- A cause followed by the words of the error's class. -/
  ended (cause : String) : String := cause ++ ": " ++ e.errorClass.text

end EvalError

end Stepwise
