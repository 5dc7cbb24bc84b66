import Stepwise.Yaml.Meaning

/-!
# Yaml - Nodes

The tree of a document.  The contents of a mapping are its keys and values in
turn.  An alias holds the node it stands for; inside of that node it holds only
its outline.  A tree that was not read from a text may also hold whole documents
and nodes of no kind that documents have.

Main definitions:

- `Node`, with `Node.line`, `Node.tag` and `Node.text`.
- `Node.scalarOf`, a scalar with the tag that its spelling gives.
-/

namespace Stepwise.Yaml

/-- A node of a document.  One that was never set has kind zero and nothing else. -/
inductive Node where
  | scalar (line : Nat) (tag text : String)
  | sequence (line : Nat) (tag : String) (content : List Node)
  | mapping (line : Nat) (tag : String) (content : List Node)
  | reference (line : Nat) (name : String) (inside : Bool) (target : Node)
  | document (line : Nat) (content : List Node)
  | other (kind line : Nat) (tag text : String) (content : List Node)
  deriving Repr, Inhabited

/-- The classes of nodes. -/
inductive Shape where
  | scalar
  | sequence
  | mapping
  | reference
  | document
  | other (kind : Nat)
  deriving DecidableEq, Repr, Inhabited

namespace Node

/-- The line a node starts on. -/
def line : Node → Nat
  | scalar n .. => n
  | sequence n .. => n
  | mapping n .. => n
  | reference n .. => n
  | document n _ => n
  | other _ n .. => n

/-- The tag of a node. -/
def tag : Node → String
  | scalar _ t _ => t
  | sequence _ t _ => t
  | mapping _ t _ => t
  | other _ _ t .. => t
  | _ => ""

/-- The text of a scalar or the name of an alias. -/
def text : Node → String
  | scalar _ _ s => s
  | reference _ s .. => s
  | other _ _ _ s _ => s
  | _ => ""

/-- The class of a node. -/
def shape : Node → Shape
  | scalar .. => .scalar
  | sequence .. => .sequence
  | mapping .. => .mapping
  | reference .. => .reference
  | document .. => .document
  | other kind .. => .other kind

/-- The keys and the values of the contents of a mapping. -/
def entries : List Node → List (Node × Node)
  | k :: v :: rest => (k, v) :: entries rest
  | _ => []

/-- A node without what is in it: of a mapping the keys are left, each with an empty
value. -/
def outline : Node → Node
  | mapping line tag content =>
    mapping line tag ((entries content).flatMap fun e => [e.1, scalar 0 "" ""])
  | sequence line tag _ => sequence line tag []
  | n => n

/-- Whether a node is empty and otherwise like another one. -/
def isBlankOf (n other : Node) : Bool :=
  match n with
  | mapping _ _ [] | sequence _ _ [] =>
    n.shape == other.shape && n.line == other.line && n.tag == other.tag
  | _ => false

mutual

/-- Give the aliases inside of a node that stand for the node itself its outline. -/
def withOutline (name : String) (whole : Node) : Node → Node
  | scalar line tag text => scalar line tag text
  | sequence line tag content => sequence line tag (withOutlines name whole content)
  | mapping line tag content => mapping line tag (withOutlines name whole content)
  | reference line anchor inside target =>
    if inside && anchor == name && target.isBlankOf whole then
      reference line anchor inside whole.outline
    else reference line anchor inside target
  | document line content => document line (withOutlines name whole content)
  | other kind line tag text content =>
    other kind line tag text (withOutlines name whole content)

/-- Give aliases inside of several nodes an outline. -/
def withOutlines (name : String) (whole : Node) : List Node → List Node
  | [] => []
  | n :: ns => withOutline name whole n :: withOutlines name whole ns

end

/-- The tag of a collection: the one that is given, if any. -/
def tagOr (default tag : String) : String :=
  if tag == "" || tag == "!" then default else Meaning.shortTag tag

/-- A scalar with the tag that is given, or else the one that its spelling gives.
Only a plain scalar can be anything but a text. -/
def scalarOf (line : Nat) (tag text : String) (plain : Bool) : Node :=
  let default :=
    if !plain then "!!str"
    else if text == "<<" then "!!merge"
    else (Meaning.ofText text).tag
  scalar line (tagOr default tag) text

end Node

end Stepwise.Yaml
