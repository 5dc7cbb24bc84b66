import Stepwise.Toml.Event

/-!
# Toml - Tables

What a text says is put into tables.  A name can be given only once in a table,
except that a header may name a table that so far was only mentioned on the way to
another one, and that every header of an array of tables adds an element to it.
Tables in place of the values of an array make an array of tables too, and then
the other values of the array are dropped.

Main definitions:

- `Conflict`, two uses of a name that exclude each other, and `Fault`, with their
  wording.
- `Field`, what a name stands for, and `Tables`, all fields by their paths.
- `Tables.handle`, what a piece of a text does, and `Tables.ofText`, the tables of
  a text.
-/

namespace Stepwise.Toml

/-! ## Faults -/

/-- What a name was to be used for. -/
inductive Usage where
  | key
  /-- A step on the way to a table. -/
  | passage
  | table
  | arrayTable
  deriving DecidableEq, Repr, Inhabited

/-- How a message names a use. -/
def Usage.text : Usage → String
  | key | passage => "key"
  | table => "table"
  | arrayTable => "array table"

/-- What a name stands for already. -/
inductive Holder where
  | value
  | table
  | arrayTable
  deriving DecidableEq, Repr, Inhabited

/-- A name that stands for something else already. -/
structure Conflict where
  usage : Usage
  name : String
  holder : Holder
  line : Nat
  deriving DecidableEq, Repr, Inhabited

/-- The wording of a conflict.  The line of a value with the key of another one is
written in hexadecimal digits, followed by a `d`; a key is not expected to be that
of an array of tables. -/
def Conflict.message (c : Conflict) : String :=
  let subject := c.usage.text ++ " \x60" ++ c.name ++ "' is in conflict "
  let place := toString c.line
  match c.usage, c.holder with
  | .key, .value => subject ++ "with line " ++ String.ofList (Nat.toDigits 16 c.line) ++ "d"
  | .key, .arrayTable => "BUG: " ++ subject ++ "but it's unknown type \x60[]*ast.Table'"
  | _, .value => subject ++ "with line " ++ place
  | _, .table => subject ++ "with table in line " ++ place
  | _, .arrayTable => subject ++ "with array table in line " ++ place

/-- What can be wrong with a text. -/
inductive FaultCause where
  | grammar
  | escape
  | conflict (c : Conflict)
  deriving DecidableEq, Repr, Inhabited

/-- The wording of a cause. -/
def FaultCause.message : FaultCause → String
  | grammar => "invalid TOML syntax"
  | escape => "invalid syntax"
  | conflict c => c.message

/-- A cause and its line. -/
structure Fault where
  line : Nat
  cause : FaultCause
  deriving DecidableEq, Repr, Inhabited

/-! ## Tables -/

/-- A step on the way to a field. -/
inductive Step where
  | name (s : String)
  | element (n : Nat)
  deriving DecidableEq, Repr, Inhabited

/-- What a name stands for.  A table is provisional as long as no header names it. -/
inductive Field where
  | value (v : Value) (line : Nat)
  | table (provisional : Bool) (line : Nat)
  /-- The line is that of the first element. -/
  | arrayTable (size line : Nat)
  deriving DecidableEq, Repr, Inhabited

namespace Field

/-- The line a field was given on. -/
def line : Field → Nat
  | value _ n => n
  | table _ n => n
  | arrayTable _ n => n

/-- What a field is, for a message. -/
def holder : Field → Holder
  | value .. => .value
  | table .. => .table
  | arrayTable .. => .arrayTable

end Field

/-- The fields by their paths, in the order of their first mention, and what is known
in the midst of a text: the path of the table that entries go to, the last key and
the last value, how many arrays are open, and the keys and paths to go back to
after tables that stand in place of values. -/
structure Tables where
  fields : List (List Step × Field)
  current : List Step
  key : String
  value : Value
  arrays : Nat
  enclosing : List (String × List Step)
  /-- Whether the entry that ends next has its table already. -/
  settled : Bool
  deriving Repr, Inhabited

namespace Tables

/-- No fields. -/
def empty : Tables := ⟨[], [], "", .boolean, 0, [], false⟩

/-- The field at a path. -/
def find? (t : Tables) (path : List Step) : Option Field :=
  t.fields.lookup path

/-- Replace the field at a path, or add one. -/
def put (t : Tables) (path : List Step) (f : Field) : Tables :=
  if (t.find? path).isSome then
    { t with fields := t.fields.map fun (p, g) => if p == path then (p, f) else (p, g) }
  else { t with fields := t.fields ++ [(path, f)] }

/-- A fault of a name that is in use. -/
def refuse {α : Type} (usage : Usage) (name : String) (f : Field) (line : Nat) :
    Except Fault α :=
  .error ⟨line, .conflict ⟨usage, name, f.holder, f.line⟩⟩

/-- The path to the table of several names; tables on the way are made. -/
def reach (line : Nat) (t : Tables) (path : List Step) :
    List String → Except Fault (Tables × List Step)
  | [] => .ok (t, path)
  | s :: rest =>
    let next := path ++ [.name s]
    match t.find? next with
    | none => reach line (t.put next (.table true line)) next rest
    | some (.table ..) => reach line t next rest
    | some (.arrayTable size _) => reach line t (next ++ [.element (size - 1)]) rest
    | some f => refuse .passage s f line

/-- Start a table. -/
def openTable (t : Tables) (spelling : String) (provisional : Bool) (line : Nat)
    (path : List Step) : Except Fault Tables :=
  match t.find? path with
  | none | some (.table true _) =>
    .ok { t.put path (.table provisional line) with current := path }
  | some f => refuse .table spelling f line

/-- Add an element to an array of tables. -/
def openElement (t : Tables) (spelling : String) (line : Nat) (path : List Step) :
    Except Fault Tables :=
  match t.find? path with
  | none => .ok { t.put path (.arrayTable 1 line) with current := path ++ [.element 0] }
  | some (.arrayTable size first) =>
    .ok { t.put path (.arrayTable (size + 1) first) with current := path ++ [.element size] }
  | some f => refuse .arrayTable spelling f line

/-- The text of a key. -/
def keyText : Key → Except Fault String
  | .ok s => .ok s
  | .error line => .error ⟨line, .escape⟩

/-- Start a table that stands in place of a value; inside of arrays it is an element
of an array of tables. -/
def enter (t : Tables) (line : Nat) : Except Fault Tables := do
  let path := t.current ++ [.name t.key]
  let inner ←
    if t.arrays = 0 then t.openTable t.key true line path else t.openElement t.key line path
  return { inner with enclosing := (t.key, t.current) :: t.enclosing, settled := false }

/-- End a table that stands in place of a value. -/
def leave (t : Tables) : Tables :=
  let (key, current) := t.enclosing.headD ("", [])
  { t with key, current, enclosing := t.enclosing.tail, settled := true }

/-- Put the last value under the last key, unless a table stands there. -/
def endEntry (t : Tables) (line : Nat) : Except Fault Tables :=
  if t.settled then .ok { t with settled := false }
  else
    let path := t.current ++ [.name t.key]
    match t.find? path with
    | some f => refuse .key t.key f line
    | none => .ok (t.put path (.value t.value line))

/-- What a piece of a text does. -/
def handle (t : Tables) : Event → Except Fault Tables
  | .key k => do return { t with key := ← keyText k }
  | .value v => .ok { t with value := v }
  | .broken line => .error ⟨line, .escape⟩
  | .arrayStart => .ok { t with arrays := t.arrays + 1 }
  | .arrayEnd => .ok { t with arrays := t.arrays - 1, value := .array }
  | .tableStart line => t.enter line
  | .tableEnd => .ok t.leave
  | .entryEnd line => t.endEntry line
  | .table names spelling line => do
    let names ← names.mapM keyText
    let (t, path) ← reach line t [] names.dropLast
    t.openTable spelling false line (path ++ [.name (names.getLastD "")])
  | .arrayTable names spelling line => do
    let names ← names.mapM keyText
    let (t, path) ← reach line t [] names.dropLast
    t.openElement spelling line (path ++ [.name (names.getLastD "")])

/-- The tables of a text. -/
def ofText (text : String) : Except Fault Tables :=
  match Event.ofText text with
  | .error line => .error ⟨line, .grammar⟩
  | .ok events => events.foldlM handle empty

/-- The fields outside of tables, by their names. -/
def topLevel (t : Tables) : List (String × Field) :=
  t.fields.filterMap fun (path, f) =>
    match path with
    | [.name s] => some (s, f)
    | _ => none

end Tables

end Stepwise.Toml
