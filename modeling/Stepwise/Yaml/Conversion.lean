import Stepwise.Text.Octets
import Stepwise.Text.Quoted
import Stepwise.Yaml.Node

/-!
# Yaml - From nodes to values

A node is read as an integer or as a text.  Faults of type are collected, so that
one message can name them all; other errors end the reading.

Main definitions:

- `TypeFault` and `ConversionError`, with their wording.
- `Node.repeatedKeys`, the keys that a mapping has more than once.
- `IntReader`, how integers are read, and `Node.toInt64`, the way documents have.
- `Node.toText?`, a node as a text.
-/

namespace Stepwise.Yaml

/-! ## Errors -/

/-- What a node was to be read as. -/
inductive Target where
  | integer
  | text
  | document
  deriving DecidableEq, Repr, Inhabited

/-- How a message names a target. -/
def Target.name : Target → String
  | integer => "int64"
  | text => "string"
  | document => "program.document"

/-- A node that does not have the type it should have. -/
inductive TypeFault where
  | mismatch (line : Nat) (tag text : String) (target : Target)
  | repeatedKey (line : Nat) (key : String) (first : Nat)
  | repeatedField (line : Nat) (field : String)
  deriving DecidableEq, Repr, Inhabited

namespace TypeFault

/-- The first octets of a text; those of a character that is cut in two are shown
as replacement characters. -/
def clip (n : Nat) : List Char → List Char
  | [] => []
  | c :: cs =>
    if c.utf8Size ≤ n then c :: clip (n - c.utf8Size) cs else List.replicate n '\ufffd'

/-- A text between backquotes; of a text of more than ten octets only the first
seven are shown. -/
def excerpt (s : String) : String :=
  let shown := if 10 < s.utf8ByteSize then String.ofList (clip 7 s.toList) ++ "..." else s
  "\x60" ++ shown ++ "\x60"

/-- The wording of a fault. -/
def message : TypeFault → String
  | mismatch line tag text target =>
    let value := if tag == "!!seq" || tag == "!!map" then text else " " ++ excerpt text
    "line " ++ toString line ++ ": cannot unmarshal " ++ tag ++ value ++ " into " ++ target.name
  | repeatedKey line key first =>
    "line " ++ toString line ++ ": mapping key " ++ Text.Escaped.quote key ++
      " already defined at line " ++ toString first
  | repeatedField line field =>
    "line " ++ toString line ++ ": field " ++ field ++ " already set in type " ++
      Target.document.name

end TypeFault

/-- Failures of reading a node as a value. -/
inductive ConversionError where
  | faults (all : List TypeFault)
  /-- A scalar does not have the meaning its tag names. -/
  | misread (tag text wanted : String)
  | cyclic (anchor : String)
  | merge
  | binary
  /-- Nearly all that was read comes from aliases. -/
  | excessiveAliasing
  /-- A collection is a key of a mapping. -/
  | invalidKey
  /-- A collection is a key of a mapping that others are merged into. -/
  | collectionKey
  /-- A node is of no kind that documents have. -/
  | unknownKind (kind : Nat)
  deriving Repr, Inhabited

namespace ConversionError

/-- What went wrong. -/
def cause : ConversionError → String
  | faults all => "unmarshal errors:\n  " ++ "\n  ".intercalate (all.map TypeFault.message)
  | misread tag text wanted =>
    "cannot decode " ++ tag ++ " \x60" ++ text ++ "\x60 as a " ++ wanted
  | cyclic anchor => "anchor '" ++ anchor ++ "' value contains itself"
  | merge => "map merge requires map or sequence of maps as the value"
  | binary => "!!binary value contains invalid base64 data"
  | excessiveAliasing => "document contains excessive aliasing"
  | invalidKey => "invalid map key"
  | collectionKey => "a collection cannot be looked up"
  | unknownKind kind => "cannot decode node with unknown kind " ++ toString kind

/-- The message of an error. -/
def message (e : ConversionError) : String := "yaml: " ++ e.cause

end ConversionError

/-! ## Reading -/

/-- How integers are read from nodes; what goes wrong is a text. -/
abbrev IntReader := Node → Except String Int64

namespace Node

/-- The node that is meant: an alias stands for its target, and a document for the
one node in it. -/
def followed : Node → Node
  | reference _ _ _ target => target.followed
  | document _ [n] => n.followed
  | n => n

/-- Whether a node was never set. -/
def isUnset : Node → Bool
  | other 0 0 "" "" [] => true
  | _ => false

/-- Whether two keys are the same. -/
def sameKey (a b : Node) : Bool :=
  a.shape == b.shape && a.text == b.text

/-- The keys that a mapping has more than once. -/
def repeatedKeys : List (Node × Node) → List TypeFault
  | [] => []
  | (k, _) :: rest =>
    (rest.filter fun e => sameKey k e.1).map
      (fun e => .repeatedKey e.1.line e.1.text k.line) ++ repeatedKeys rest

/-- The faults of keys that a node has more than once, if it is a mapping. -/
def repeatedFaults : Node → List TypeFault
  | mapping _ _ content => repeatedKeys (entries content)
  | _ => []

/-- The tag of a node in a message; one without a tag has that of its form. -/
def shownTag : Node → String
  | scalar _ "" text => (Meaning.ofText text).tag
  | sequence _ "" _ => "!!seq"
  | mapping _ "" _ => "!!map"
  | n => n.tag

/-- The fault of a node that is not what it should be. -/
def mismatch (n : Node) (target : Target) : TypeFault :=
  .mismatch n.line n.shownTag n.text target

/-- The faults of a collection where a value should be. -/
def collectionFaults (n : Node) (target : Target) : List TypeFault :=
  if n.repeatedFaults.isEmpty then [n.mismatch target] else n.repeatedFaults

/-- The meaning of a scalar with a tag. -/
def meaning (tag text : String) : Except ConversionError Meaning :=
  let tag := Meaning.shortTag tag
  match Meaning.ofTagged? tag text with
  | some m => .ok m
  | none => .error (.misread (Meaning.ofSpelling (tag == "!!timestamp") text).tag text tag)

/-- Whether a tag says that a text is written in base 64. -/
def isBinary (tag : String) : Bool := Meaning.shortTag tag == "!!binary"

/-- A node as a 64-bit integer.  Null and what was never set are zero, and a real
number is cut to its whole part. -/
def toInt64 (n : Node) : Except ConversionError Int64 :=
  let fail {α : Type} (n : Node) : Except ConversionError α :=
    .error (.faults (n.collectionFaults .integer))
  match n.followed with
  | scalar line tag text => do
    let n := scalar line tag text
    if isBinary tag && (Text.Base64.decode? text).isNone then throw .binary
    match ← meaning tag text with
    | .null => return 0
    | .integer v => if Number.fitsInt64 v then return Int64.ofInt v else fail n
    | .real r =>
      match r.toInt64? with
      | some v => return Int64.ofInt v
      | none => fail n
    | _ => fail n
  | document .. => return 0
  | other kind line tag text content =>
    if (other kind line tag text content).isUnset then return 0 else .error (.unknownKind kind)
  | n => fail n

/-- A node as a 64-bit integer, or why it is none. -/
def readInt : IntReader := fun n => n.toInt64.mapError ConversionError.message

/-- A node as a text; null is none. -/
def toText? (n : Node) : Except ConversionError (Option String) :=
  match n.followed with
  | scalar _ tag text => do
    if isBinary tag then
      match Text.Base64.decode? text with
      | some s => return some s
      | none => throw .binary
    match ← meaning tag text with
    | .null => return none
    | _ => return some text
  | document .. => return none
  | other kind line tag text content =>
    if (other kind line tag text content).isUnset then return none
    else .error (.unknownKind kind)
  | n => .error (.faults (n.collectionFaults .text))

end Node

end Stepwise.Yaml
