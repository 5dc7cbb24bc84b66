import Stepwise.Yaml.Conversion

/-!
# Yaml - The progress of reading nodes

Reading a document as values has a price: every node that is read counts, and the
nodes that are read by way of an alias count apart.  A document in which nearly
all that is read comes from aliases is refused.

A node that may be anything is read as a loose value.  Of such a value only its
form is kept: a text, another scalar or a collection.

Main definitions:

- `Progress`, the faults and the counts so far, with `Progress.spend`.
- `Progress.text`, a node as a text.
- `Form` and `Progress.loose`, the form of a node that may be anything.
- `Progress.settle`, which notes the keys of a mapping.
-/

namespace Stepwise.Yaml

/-- The state of reading nodes as values: the faults so far, how many nodes were
read, how many of them by way of an alias, and, while mappings are merged, the
keys that are settled. -/
structure Progress where
  faults : List TypeFault
  read : Nat
  aliased : Nat
  settled : Option (List String)
  deriving Repr, Inhabited

/-- What is kept of a node that may be anything. -/
inductive Form where
  /-- The node has faults. -/
  | faulty
  | text (s : String)
  /-- A scalar that is not a text. -/
  | other
  | collection
  deriving DecidableEq, Repr, Inhabited

namespace Node

/-- Whether a key merges other mappings. -/
def isMerge : Node → Bool
  | scalar _ tag text => text == "<<" && tag == "!!merge"
  | _ => false

/-- The tag of a node, or of the one that an alias stands for. -/
def followedTag (n : Node) : String := n.followed.tag

/-- Whether all keys of a mapping are texts. -/
def hasTextKeys (content : List Node) : Bool :=
  (entries content).all fun e => ["!!str", "!!merge"].contains e.1.followedTag

end Node

namespace Progress

/-- The state before a document. -/
def start : Progress := ⟨[], 1, 0, none⟩

/-- Add faults. -/
def addFaults (p : Progress) (fs : List TypeFault) : Progress :=
  { p with faults := p.faults ++ fs }

/-! ## The price of aliases -/

/-- The number of nodes up to which aliases may make up 99 of 100, and the number
from which on they may make up 10 of 100. -/
def aliasRange : Nat × Nat := (400000, 4000000)

/-- Whether aliases make up too much of what was read.  Between the ends of the range
the part that is allowed falls evenly. -/
def isExcessive (p : Progress) : Bool :=
  let (low, high) := aliasRange
  let width := high - low
  100 < p.aliased && 1000 < p.read &&
    (if p.read ≤ low then p.read * 99 < p.aliased * 100
    else if high ≤ p.read then p.read * 10 < p.aliased * 100
    else p.read * (99 * width - 89 * (p.read - low)) < p.aliased * 100 * width)

/-- Count a node, read by way of an alias or not. -/
def spend (p : Progress) (aliased : Bool) : Except ConversionError Progress :=
  let p := { p with read := p.read + 1, aliased := p.aliased + if aliased then 1 else 0 }
  if p.isExcessive then .error .excessiveAliasing else .ok p

/-- Count a node and the one that it stands for. -/
def spendOn (p : Progress) (aliased : Bool) : Node → Except ConversionError Progress
  | .reference _ _ _ target => do spendOn (← p.spend aliased) true target
  | .document _ [n] => do spendOn (← p.spend aliased) aliased n
  | _ => p.spend aliased

/-! ## Texts -/

/-- The text of a node, if it has one; faults of type are collected. -/
def text (p : Progress) (aliased : Bool) (n : Node) :
    Except ConversionError (Option String × Progress) := do
  let p ← p.spendOn aliased n
  match n.toText? with
  | .ok s => .ok (s, p)
  | .error (.faults fs) => .ok (none, p.addFaults fs)
  | .error e => .error e

/-! ## Loose values -/

/-- The form of a scalar. -/
def scalarForm (tag text : String) : Except ConversionError Form := do
  if Node.isBinary tag then
    match Text.Base64.decode? text with
    | some s => return .text s
    | none => throw .binary
  match ← Node.meaning tag text with
  | .text => return .text text
  | _ => return .other

/-- Whether the value of a key is read, and the state with the key settled.  While
mappings are merged, a key that is settled is passed over, and a collection cannot
be looked up; otherwise a collection cannot be a key. -/
def acceptKey (p : Progress) : Form → Except ConversionError (Bool × Progress)
  | .faulty => .ok (false, p)
  | .other => .ok (true, p)
  | .collection => .error (if p.settled.isSome then .collectionKey else .invalidKey)
  | .text s =>
    match p.settled with
    | some names => .ok (!names.contains s, { p with settled := some (s :: names) })
    | none => .ok (true, p)

mutual

/-- The form of a node that may be anything; all that is in it is read too.  If
`into` is given, the node is merged into a mapping: it is a mapping itself or a
sequence of mappings, and `into` tells whether all keys are read as texts. -/
def loose (into : Option Bool) (p : Progress) (aliased : Bool) :
    Node → Except ConversionError (Form × Progress)
  | .reference _ name inside target => do
    if into.isSome && target.shape != .mapping then throw .merge
    let p ← p.spend aliased
    if inside then
      let repeated := target.repeatedFaults
      if repeated.isEmpty then throw (.cyclic name)
      return (.faulty, p.addFaults repeated)
    loose into p true target
  | .scalar _ tag text => do
    if into.isSome then throw .merge
    let p ← p.spend aliased
    return (← scalarForm tag text, p)
  | .sequence _ _ items => do
    let p ← if into.isSome then pure p else p.spend aliased
    return (.collection, ← looseItems into p aliased items)
  | .mapping _ _ content => do
    let p ← p.spend aliased
    let repeated := Node.repeatedKeys (Node.entries content)
    if !repeated.isEmpty then return (.faulty, p.addFaults repeated)
    let named := into.getD (Node.hasTextKeys content)
    let p ← looseEntries named p aliased content
    if !(Node.entries content).any (·.1.isMerge) then return (.collection, p)
    let inner ←
      if p.settled.isSome then pure p
      else settleKeys { p with settled := some [] } aliased content
    let merged ← looseMerged named inner aliased content
    return (.collection, { merged with settled := p.settled.bind fun _ => merged.settled })
  | .document _ content => do
    if into.isSome then throw .merge
    let p ← p.spend aliased
    match content with
    | [n] => loose none p aliased n
    | _ => return (.faulty, p)
  | .other kind line tag text content => do
    if into.isSome then throw .merge
    let p ← p.spend aliased
    if (Node.other kind line tag text content).isUnset then return (.other, p)
    throw (.unknownKind kind)

/-- Read the items of a sequence, or merge them. -/
def looseItems (into : Option Bool) (p : Progress) (aliased : Bool) :
    List Node → Except ConversionError Progress
  | [] => .ok p
  | n :: ns => do
    if into.isSome && n.shape == .sequence then throw .merge
    let (_, p) ← loose into p aliased n
    looseItems into p aliased ns

/-- Read the keys and values of a mapping.  What is inside of them does not know
that mappings are merged. -/
def looseEntries (named : Bool) (p : Progress) (aliased : Bool) :
    List Node → Except ConversionError Progress
  | k :: v :: rest => do
    if k.isMerge then looseEntries named p aliased rest
    else
      let inner := { p with settled := none }
      let (form, inner) ←
        if named then do
          let (s, inner) ← inner.text aliased k
          pure ((s.map .text).getD .faulty, inner)
        else loose none inner aliased k
      let (wanted, p) ← acceptKey { inner with settled := p.settled } form
      if wanted then
        let (_, inner) ← loose none { p with settled := none } aliased v
        looseEntries named { inner with settled := p.settled } aliased rest
      else looseEntries named p aliased rest
  | _ => .ok p

/-- Merge the last value of a merge key. -/
def looseMerged (named : Bool) (p : Progress) (aliased : Bool) :
    List Node → Except ConversionError Progress
  | k :: v :: rest => do
    if k.isMerge && !(Node.entries rest).any (·.1.isMerge) then
      let (_, p) ← loose (some named) p aliased v
      return p
    else looseMerged named p aliased rest
  | _ => .ok p

/-- Note the keys of a mapping as settled, one after the other. -/
def settleKeys (p : Progress) (aliased : Bool) :
    List Node → Except ConversionError Progress
  | k :: _ :: rest => do
    let (form, p) ← loose none p aliased k
    match form with
    | .collection => throw .collectionKey
    | .text s => settleKeys { p with settled := p.settled.map (s :: ·) } aliased rest
    | _ => settleKeys p aliased rest
  | _ => .ok p

end

/-- Before others are merged into a mapping, its own keys are settled, unless a
mapping around it has settled its own before. -/
def settle (p : Progress) (aliased : Bool) (content : List Node) :
    Except ConversionError Progress :=
  match p.settled with
  | some _ => .ok p
  | none => settleKeys { p with settled := some [] } aliased content

end Progress

end Stepwise.Yaml
