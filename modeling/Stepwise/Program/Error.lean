import Stepwise.Syntax.Error
import Stepwise.Yaml.Conversion

/-!
# Program - Errors

The ways in which a text can fail to be a program.  Errors about a node of the
document get the line of a node; that of a node inside of another one is kept on
the way out.

Main definitions:

- `DecodeFault`, what is wrong with a node, and `DecodeError`, a fault with or
  without lines.
- `DecodeError.locate`, which gives an error a line unless it has one.
- `ProgramError`, the failures of reading a program.
-/

namespace Stepwise

/-- What is wrong with a node of a program. -/
inductive DecodeFault where
  | notAList
  | notANode
  | unknownKind (kind : String)
  | missing (key : String)
  | notAScalar (what : String)
  | notAPair (kind : String)
  | notAMapping
  | argumentsNotAList
  | unknownType (name : String)
  | badInteger (cause : String)
  /-- An expression stands where a statement has to. -/
  | notAStatement (kind : Kind)
  /-- The parts of a node do not fit together. -/
  | rejected (cause : NodeError)
  deriving DecidableEq, Repr, Inhabited

namespace DecodeFault

/-- The class of a fault. -/
def errorClass : DecodeFault → ErrorClass
  | notAStatement _ => .invalidOperand
  | rejected cause => cause.errorClass
  | _ => .malformedProgram

/-- What went wrong, without the words of the class. -/
def cause : DecodeFault → String
  | notAList => "expected a list of statements"
  | notANode => "a node is a mapping with exactly one key"
  | unknownKind kind => "unknown node kind " ++ Text.Escaped.quote kind
  | missing key => "missing " ++ Text.Escaped.quote key
  | notAScalar what => what ++ " must be a scalar"
  | notAPair kind => kind ++ " takes a list of two operands"
  | notAMapping => "expected a mapping"
  | argumentsNotAList => "args must be a list"
  | unknownType name => "unknown type " ++ Text.Escaped.quote name
  | badInteger cause => "int: " ++ cause
  | notAStatement kind => kind.name ++ " is not a statement"
  | rejected cause => cause.cause

/-- The message of a fault. -/
def message (f : DecodeFault) : String :=
  f.cause ++ ": " ++ f.errorClass.text

end DecodeFault

/-- An error of decoding: a fault by itself, or an error with the line of the node
that it was found at. -/
inductive DecodeError where
  | fault (fault : DecodeFault)
  | atLine (line : Nat) (cause : DecodeError)
  deriving DecidableEq, Repr, Inhabited

namespace DecodeError

/-- The outermost line of an error, if it has one. -/
def line? : DecodeError → Option Nat
  | fault _ => none
  | atLine line _ => some line

/-- Give an error a line, unless it has one. -/
def locate (line : Nat) (e : DecodeError) : DecodeError :=
  match e.line? with
  | some _ => e
  | none => atLine line e

/-- The class of an error. -/
def errorClass : DecodeError → ErrorClass
  | fault f => f.errorClass
  | atLine _ cause => cause.errorClass

/-- The message of an error. -/
def message : DecodeError → String
  | fault f => f.message
  | atLine line cause => "line " ++ toString line ++ ": " ++ cause.message

end DecodeError

/-- Failures of reading a program. -/
inductive ProgramError where
  /-- The text is no document. -/
  | unreadable
  | conversion (cause : Yaml.ConversionError)
  | noProgram
  | decoding (cause : DecodeError)
  deriving Repr, Inhabited

namespace ProgramError

/-- The class of an error. -/
def errorClass : ProgramError → ErrorClass
  | conversion .collectionKey => .collectionKey
  | decoding e => e.errorClass
  | _ => .malformedProgram

/-- The line of the node at fault, where one is known. -/
def line? : ProgramError → Option Nat
  | decoding e => e.line?
  | _ => none

/-- The message of an error. -/
def message : ProgramError → String
  | unreadable => "yaml: not a document: " ++ ErrorClass.malformedProgram.text
  | conversion cause => cause.message ++ ": " ++ ErrorClass.malformedProgram.text
  | noProgram => "no program key: " ++ ErrorClass.malformedProgram.text
  | decoding e => e.message

end ProgramError

end Stepwise
