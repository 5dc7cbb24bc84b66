import Stepwise.Yaml.Node
import Stepwise.Yaml.Token

/-!
# Yaml - From tokens to the first document

A stream may hold several documents, of which the first one is read.  Aliases
are resolved on the way.

Main definitions:

- `Reader`, the tokens still to be read and the anchors met so far.
- `Document`, an empty stream or the root of the first document.
- `Document.ofText?`, the first document of a text, unless the text is faulty.
-/

namespace Stepwise.Yaml

/-- An anchored node; a node is open as long as its contents are being read. -/
structure Anchored where
  name : String
  /-- How many tokens were left where the node started. -/
  place : Nat
  isOpen : Bool
  node : Node
  deriving Inhabited

/-- The tokens still to be read, the prefixes of tags, and the anchors met so
far, the last one first. -/
structure Reader where
  tokens : List Token
  tags : List (String × String)
  anchors : List Anchored
  deriving Inhabited

/-- Computations that read tokens and fail where these are not as expected. -/
abbrev Read (α : Type) := StateT Reader Option α

/-- What a document stream starts with. -/
inductive Document where
  | empty
  | root (node : Node)
  deriving Repr, Inhabited

namespace Read

/-- The next token, which stays unread. -/
def peek : Read Token :=
  fun r => r.tokens.head?.map (·, r)

/-- Read over the next token. -/
def skip : Read Unit :=
  fun r => some ((), { r with tokens := r.tokens.tail })

/-- The place of the next token, counted from the end. -/
def place : Read Nat :=
  fun r => some (r.tokens.length, r)

/-- Fail. -/
def fault {α : Type} : Read α :=
  fun _ => none

/-- Note an anchored node. -/
def note (a : Anchored) : Read Unit :=
  fun r => some ((), { r with anchors := a :: r.anchors })

/-- Note that the contents of an anchored node are complete, unless the name was
given to another node since. -/
def close (place : Nat) (node : Node) : Read Unit :=
  fun r =>
    let complete (a : Anchored) :=
      if a.isOpen && a.place == place then { a with isOpen := false, node := node } else a
    some ((), { r with anchors := r.anchors.map complete })

/-- The node that an alias stands for. -/
def resolveAlias (line : Nat) (name : String) : Read Node :=
  fun r =>
    (r.anchors.find? (·.name == name)).map fun a => (.reference line name a.isOpen a.node, r)

/-- The tag that a handle and a suffix stand for. -/
def resolveTag (handle suffix : String) : Read String :=
  fun r =>
    if handle.isEmpty then some (suffix, r)
    else
      match r.tags.find? (·.1 == handle) with
      | some (_, text) => if (text ++ suffix).isEmpty then none else some (text ++ suffix, r)
      | none => none

/-- The place of a node, its anchor and its tag. -/
structure Properties where
  line : Nat
  anchor : Option String
  tag : String

/-- The anchor and the tag in front of a node, in either order. -/
def properties : Read Properties := do
  let first ← peek
  match first.lexeme with
  | .anchor name =>
    skip
    let second ← peek
    match second.lexeme with
    | .tag handle suffix =>
      skip
      let _ ← peek
      return ⟨first.line, some name, ← resolveTag handle suffix⟩
    | _ => return ⟨first.line, some name, ""⟩
  | .tag handle suffix =>
    skip
    let second ← peek
    match second.lexeme with
    | .anchor name =>
      skip
      let _ ← peek
      return ⟨first.line, some name, ← resolveTag handle suffix⟩
    | _ => return ⟨first.line, none, ← resolveTag handle suffix⟩
  | _ => return ⟨first.line, none, ""⟩

/-- An empty scalar. -/
def emptyScalar (line : Nat) : Node := .scalarOf line "" "" true

/-- A scalar, noted under its anchor. -/
def scalar (p : Properties) (text : String) (plain : Bool) : Read Node := do
  let n := Node.scalarOf p.line p.tag text plain
  if let some name := p.anchor then note ⟨name, 0, false, n⟩
  return n

/-- A collection whose contents are read by `contents`, noted under its anchor. -/
def collection (p : Properties) (make : List Node → Node) (contents : Read (List Node)) :
    Read Node := do
  let here ← place
  if let some name := p.anchor then note ⟨name, here, true, make []⟩
  let n := make (← contents)
  match p.anchor with
  | some name =>
    let n := n.withOutline name n
    close here n
    return n
  | none => return n

/-- Whether a lexeme leaves the place before it empty in a block collection. -/
def endsBlock (inMapping : Bool) : Lexeme → Bool
  | .blockEnd => true
  | .entry => !inMapping
  | .key | .value => inMapping
  | _ => false

/-- Whether a lexeme leaves the place after an entry of a sequence without
indentation empty. -/
def endsIndentless : Lexeme → Bool
  | .blockEnd | .entry | .key | .value => true
  | _ => false

mutual

/-- A node. -/
def node (block indentless : Bool) : Nat → Read Node
  | 0 => fault
  | fuel + 1 => do
    let next ← peek
    if let .reference name := next.lexeme then
      let n ← resolveAlias next.line name
      skip
      return n
    let p ← properties
    let sequence := Node.sequence p.line (Node.tagOr "!!seq" p.tag)
    let mapping := Node.mapping p.line (Node.tagOr "!!map" p.tag)
    let next ← peek
    match next.lexeme with
    | .entry =>
      if indentless then collection p sequence (indentlessEntries [] fuel)
      else emptyOr p
    | .scalar text plain =>
      skip
      scalar p text plain
    | .flowSequenceStart =>
      skip
      collection p sequence (flowItems true [] fuel)
    | .flowMappingStart =>
      skip
      collection p mapping (flowEntries true [] fuel)
    | .sequenceStart =>
      if block then
        skip
        collection p sequence (blockItems [] fuel)
      else emptyOr p
    | .mappingStart =>
      if block then
        skip
        collection p mapping (blockEntries [] fuel)
      else emptyOr p
    | _ => emptyOr p
where
  /-- The empty scalar that an anchor or a tag alone stands for. -/
  emptyOr (p : Properties) : Read Node :=
    if p.anchor.isSome || p.tag != "" then scalar p "" true else fault

/-- The items of a block sequence after `items`, which are in reverse. -/
def blockItems (items : List Node) : Nat → Read (List Node)
  | 0 => fault
  | fuel + 1 => do
    let next ← peek
    match next.lexeme with
    | .entry =>
      skip
      let after ← peek
      if endsBlock false after.lexeme then blockItems (emptyScalar next.line :: items) fuel
      else
        let item ← node true false fuel
        blockItems (item :: items) fuel
    | .blockEnd =>
      skip
      return items.reverse
    | _ => fault

/-- The items of a sequence with the indentation of the mapping around it. -/
def indentlessEntries (items : List Node) : Nat → Read (List Node)
  | 0 => fault
  | fuel + 1 => do
    let next ← peek
    match next.lexeme with
    | .entry =>
      skip
      let after ← peek
      if endsIndentless after.lexeme then indentlessEntries (emptyScalar next.line :: items) fuel
      else
        let item ← node true false fuel
        indentlessEntries (item :: items) fuel
    | _ => return items.reverse

/-- The keys and values of a block mapping. -/
def blockEntries (content : List Node) : Nat → Read (List Node)
  | 0 => fault
  | fuel + 1 => do
    let next ← peek
    match next.lexeme with
    | .key =>
      skip
      let after ← peek
      let key ←
        if endsBlock true after.lexeme then pure (emptyScalar next.line)
        else node true true fuel
      let value ← blockValue fuel
      blockEntries (value :: key :: content) fuel
    | .blockEnd =>
      skip
      return content.reverse
    | _ => fault

/-- The value after a key of a block mapping. -/
def blockValue : Nat → Read Node
  | 0 => fault
  | fuel + 1 => do
    let next ← peek
    match next.lexeme with
    | .value =>
      skip
      let after ← peek
      if endsBlock true after.lexeme then return emptyScalar next.line
      else node true true fuel
    | _ => return emptyScalar next.line

/-- The items of a flow sequence; a key in it makes a mapping of one entry. -/
def flowItems (first : Bool) (items : List Node) : Nat → Read (List Node)
  | 0 => fault
  | fuel + 1 => do
    let next ← peek
    if next.lexeme == .flowSequenceEnd then
      skip
      return items.reverse
    if !first then
      if next.lexeme != .flowEntry then fault
      skip
    let next ← peek
    match next.lexeme with
    | .flowSequenceEnd =>
      skip
      return items.reverse
    | .key =>
      skip
      let key ← pairKey fuel
      let value ← pairValue fuel
      flowItems false (.mapping next.line "!!map" [key, value] :: items) fuel
    | _ =>
      let item ← node false false fuel
      flowItems false (item :: items) fuel

/-- The key of a mapping of one entry.  Where there is none, the token in its
place is read over. -/
def pairKey : Nat → Read Node
  | 0 => fault
  | fuel + 1 => do
    let next ← peek
    match next.lexeme with
    | .value | .flowEntry | .flowSequenceEnd =>
      skip
      return emptyScalar next.line
    | _ => node false false fuel

/-- The value of a mapping of one entry. -/
def pairValue : Nat → Read Node
  | 0 => fault
  | fuel + 1 => do
    let next ← peek
    if next.lexeme == .value then
      skip
      let after ← peek
      match after.lexeme with
      | .flowEntry | .flowSequenceEnd => return emptyScalar next.line
      | _ => node false false fuel
    else return emptyScalar next.line

/-- The keys and values of a flow mapping. -/
def flowEntries (first : Bool) (content : List Node) : Nat → Read (List Node)
  | 0 => fault
  | fuel + 1 => do
    let next ← peek
    if next.lexeme == .flowMappingEnd then
      skip
      return content.reverse
    if !first then
      if next.lexeme != .flowEntry then fault
      skip
    let next ← peek
    match next.lexeme with
    | .flowMappingEnd =>
      skip
      return content.reverse
    | .key =>
      skip
      let after ← peek
      let key ←
        match after.lexeme with
        | .value | .flowEntry | .flowMappingEnd => pure (emptyScalar after.line)
        | _ => node false false fuel
      let value ← flowValue fuel
      flowEntries false (value :: key :: content) fuel
    | _ =>
      let key ← node false false fuel
      let after ← peek
      flowEntries false (emptyScalar after.line :: key :: content) fuel

/-- The value after a key of a flow mapping. -/
def flowValue : Nat → Read Node
  | 0 => fault
  | fuel + 1 => do
    let next ← peek
    if next.lexeme == .value then
      skip
      let after ← peek
      match after.lexeme with
      | .flowEntry | .flowMappingEnd => return emptyScalar after.line
      | _ => node false false fuel
    else return emptyScalar next.line

end

/-- The tag prefixes every document has. -/
def defaultTags : List (String × String) :=
  [("!", "!"), ("!!", "tag:yaml.org,2002:")]

/-- The directives before a document. -/
def directives (versioned : Bool) (tags : List (String × String)) :
    Nat → Read (List (String × String))
  | 0 => fault
  | fuel + 1 => do
    let next ← peek
    match next.lexeme with
    | .version major minor =>
      if versioned || major ≠ 1 || minor ≠ 1 then fault
      skip
      directives true tags fuel
    | .tagPrefix handle text =>
      if tags.any (·.1 == handle) then fault
      skip
      directives versioned (tags ++ [(handle, text)]) fuel
    | _ => return tags

/-- The content of a document after its start. -/
def content (fuel : Nat) : Read Node := do
  let next ← peek
  match next.lexeme with
  | .version .. | .tagPrefix .. | .documentStart | .documentEnd | .streamEnd =>
    return emptyScalar next.line
  | _ => node true false fuel

/-- The first document of a stream, and the token after it. -/
def document (fuel : Nat) : Read Document := do
  let next ← peek
  match next.lexeme with
  | .streamEnd => return .empty
  | .version .. | .tagPrefix .. | .documentStart =>
    let tags ← directives false [] fuel
    modify fun r => { r with tags := tags ++ defaultTags }
    let start ← peek
    if start.lexeme != .documentStart then fault
    skip
    let n ← content fuel
    let _ ← peek
    return .root n
  | _ =>
    let n ← node true false fuel
    let _ ← peek
    return .root n

end Read

/-- The first document of a text, unless the text is faulty. -/
def Document.ofText? (text : String) : Option Document :=
  let tokens := Token.scan text
  ((Read.document (4 * tokens.length + 4)).run ⟨tokens, Read.defaultTags, []⟩).map (·.1)

end Stepwise.Yaml
