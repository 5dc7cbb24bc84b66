import Stepwise.Program.Decode
import Stepwise.Yaml.Document
import Stepwise.Yaml.Progress

/-!
# Program - Program documents

A program document is a mapping that may have a name and a description and has
the statements under a key of their own.  A mapping may merge others into itself:
what it says itself counts before what is merged, and of several mappings the
first one counts.

Main definitions:

- `Header`, what a document holds.
- `Filling`, a head while it is read, and `Filling.fill`, which reads a mapping
  into it.
- `Header.ofDocument`, the head of a document.
- `Program`, a name, a description and statements, and `Program.parse`, the program
  a text describes.
-/

namespace Stepwise

/-! ## The head of a program -/

open Yaml (ConversionError TypeFault)

/-- What a program document holds. -/
structure Header where
  name : String
  description : String
  statements : Option Yaml.Node
  deriving Repr, Inhabited

/-- A head while it is read, and how the reading goes. -/
structure Filling where
  header : Header
  progress : Yaml.Progress
  deriving Repr, Inhabited

namespace Filling

/-- The start of reading. -/
def start : Filling := ⟨⟨"", "", none⟩, .start⟩

/-- Add faults. -/
def addFaults (f : Filling) (fs : List TypeFault) : Filling :=
  { f with progress := f.progress.addFaults fs }

/-- Count a node. -/
def spend (f : Filling) (aliased : Bool) : Except ConversionError Filling := do
  return { f with progress := ← f.progress.spend aliased }

/-- The text of a node, if it has one. -/
def text (f : Filling) (aliased : Bool) (n : Yaml.Node) :
    Except ConversionError (Option String × Filling) := do
  let (s, progress) ← f.progress.text aliased n
  return (s, { f with progress })

/-- Read the value of a key. -/
def fillField (f : Filling) (aliased : Bool) (key : String) (value : Yaml.Node) :
    Except ConversionError Filling :=
  match key with
  | "name" => do
    let (s, f) ← f.text aliased value
    return { f with header.name := s.getD f.header.name }
  | "description" => do
    let (s, f) ← f.text aliased value
    return { f with header.description := s.getD f.header.description }
  | "program" => do return { (← f.spend aliased) with header.statements := some value }
  | _ => .ok f

/-- The keys a document knows. -/
def knownKeys : List String := ["name", "description", "program"]

/-- Read the entries of a mapping; `done` are the keys read in it before. -/
def fillEntries (done : List String) (f : Filling) (aliased : Bool) :
    List (Yaml.Node × Yaml.Node) → Except ConversionError Filling
  | [] => .ok f
  | (k, v) :: rest =>
    if k.isMerge then fillEntries done f aliased rest
    else do
      let (key, f) ← f.text aliased k
      match key with
      | none => fillEntries done f aliased rest
      | some key =>
        if f.progress.settled.any (·.contains key) then fillEntries done f aliased rest
        else
          let f := { f with progress.settled := f.progress.settled.map (key :: ·) }
          if !knownKeys.contains key then fillEntries done f aliased rest
          else if done.contains key then
            fillEntries done (f.addFaults [.repeatedField k.line key]) aliased rest
          else fillEntries (key :: done) (← f.fillField aliased key v) aliased rest

/-- Before others are merged into a mapping, its own keys are settled. -/
def settle (f : Filling) (aliased : Bool) (content : List Yaml.Node) :
    Except ConversionError Filling := do
  return { f with progress := ← f.progress.settle aliased content }

mutual

/-- Read a document, or mappings that are merged into one. -/
def fill (merging : Bool) (f : Filling) (aliased : Bool) :
    Yaml.Node → Except ConversionError Filling
  | .reference _ name inside target => do
    if merging && target.shape != .mapping then throw .merge
    let f ← f.spend aliased
    if inside then throw (.cyclic name)
    fill merging f true target
  | .mapping _ _ content => do
    let f ← f.spend aliased
    let repeated := Yaml.Node.repeatedKeys (Yaml.Node.entries content)
    if !repeated.isEmpty then return f.addFaults repeated
    let f ← fillEntries [] f aliased (Yaml.Node.entries content)
    match fillMerged f aliased content content with
    | some merged => do
      let m ← merged
      let settled := if f.progress.settled.isSome then m.progress.settled else none
      return { m with progress.settled := settled }
    | none => return f
  | .sequence line tag items => do
    if merging then fillAll f aliased items
    else
      return (← f.spend aliased).addFaults [(Yaml.Node.sequence line tag items).mismatch .document]
  | .scalar line tag text => do
    if merging then throw .merge
    if Yaml.Node.isBinary tag && (Text.Base64.decode? text).isNone then throw .binary
    match ← Yaml.Node.meaning tag text with
    | .null => return f
    | _ => return f.addFaults [(Yaml.Node.scalar line tag text).mismatch .document]
  | .document _ content => do
    if merging then throw .merge
    let f ← f.spend aliased
    match content with
    | [n] => fill false f aliased n
    | _ => return f
  | .other kind line tag text content => do
    if merging then throw .merge
    let f ← f.spend aliased
    if (Yaml.Node.other kind line tag text content).isUnset then return f
    throw (.unknownKind kind)

/-- Read what a mapping merges: the last value of a merge key, if it has one. -/
def fillMerged (f : Filling) (aliased : Bool) (content : List Yaml.Node) :
    List Yaml.Node → Option (Except ConversionError Filling)
  | k :: v :: rest =>
    match fillMerged f aliased content rest with
    | some merged => some merged
    | none =>
      if k.isMerge then
        some (do
          let f ← f.settle aliased content
          fill true f aliased v)
      else none
  | _ => none

/-- Read several mappings in turn. -/
def fillAll (f : Filling) (aliased : Bool) :
    List Yaml.Node → Except ConversionError Filling
  | [] => .ok f
  | n :: ns =>
    if n.shape == .sequence then .error .merge
    else do fillAll (← fill true f aliased n) aliased ns

end

end Filling

/-- The head of a document. -/
def Header.ofDocument : Yaml.Document → Except ConversionError Header
  | .empty => .ok Filling.start.header
  | .root n => do
    let f ← Filling.fill false .start false n
    if f.progress.faults.isEmpty then .ok f.header else .error (.faults f.progress.faults)

/-! ## Programs -/

/-- A program as it is written. -/
structure Program where
  name : String
  description : String
  statements : List Stmt
  deriving Repr, Inhabited

namespace Program

/-- The program that a text describes, and the identities that are left. -/
def parse (text : String) (s : Supply) : Except ProgramError (Program × Supply) :=
  match Yaml.Document.ofText? text with
  | none => .error .unreadable
  | some document =>
    match Header.ofDocument document with
    | .error e => .error (.conversion e)
    | .ok header =>
      match header.statements with
      | none => .error .noProgram
      | some n =>
        match Decode.statements Yaml.Node.readInt n s with
        | .error e => .error (.decoding e)
        | .ok (statements, s) => .ok (⟨header.name, header.description, statements⟩, s)

end Program

end Stepwise
