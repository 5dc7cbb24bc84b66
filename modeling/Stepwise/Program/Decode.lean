import Stepwise.Program.Error
import Stepwise.Syntax.Build

/-!
# Program - Statements from nodes

Every node of a program is a mapping with one key, which names its kind; what
stands under the key are its parts.  Keys that a kind does not know are ignored,
and of a key that is repeated the last value counts.  How the value of an integer
is read is left open.

A fault of the document has the line of the node at fault.  That the parts of a
node do not fit together is found without a line; the node that is decoded, and
every node around it, then gives an error its own line unless it has one.

Main definitions:

- `Decode`, computations that build nodes and fail with errors of decoding.
- `Decode.locating`, which gives the errors of a computation a line.
- `Decode.node` and `Decode.statements`, a node and a list of statements.
-/

namespace Stepwise

/-- Computations that build nodes and fail with errors of decoding. -/
abbrev Decode (α : Type) := Build DecodeError α

namespace Decode

/-- Fail with a fault of a node. -/
def fail {α : Type} (n : Yaml.Node) (f : DecodeFault) : Decode α :=
  throw (.atLine n.line (.fault f))

/-- Build a node from its parts; that they do not fit carries no line. -/
def building {α : Type} (b : Build NodeError α) : Decode α :=
  b.mapError fun e => .fault (.rejected e)

/-- A computation the errors of which are given a line, unless they have one. -/
def locating {α : Type} (line : Nat) (d : Decode α) : Decode α :=
  d.mapError (.locate line)

/-- The text of a scalar. -/
def scalar (what : String) (n : Yaml.Node) : Decode String :=
  match n with
  | .scalar _ _ s => pure s
  | n => fail n (.notAScalar what)

/-- The last value of a key. -/
def value? (key : String) (content : List Yaml.Node) : Option Yaml.Node :=
  ((Yaml.Node.entries content).reverse.find? (·.1.text == key)).map (·.2)

/-- The last value of a key that has to be there. -/
def value (parent : Yaml.Node) (key : String) (content : List Yaml.Node) : Decode Yaml.Node :=
  match value? key content with
  | some v => pure v
  | none => fail parent (.missing key)

/-- The name under the key `name`. -/
def name (parent : Yaml.Node) (content : List Yaml.Node) : Decode Identifier := do
  let s ← scalar "name" (← value parent "name" content)
  building (Build.identifier s)

/-- The datatype under the key `type`. -/
def datatype (parent : Yaml.Node) (content : List Yaml.Node) : Decode Datatype := do
  let t ← value parent "type" content
  let s ← scalar "type" t
  match Datatype.ofText? s with
  | some d => pure d
  | none => fail t (.unknownType s)

/-- An identifier as an operand. -/
def operand (i : Identifier) : Operand := .filled (.expr (.identifier i))

/-- What was read under a key that has to be there. -/
def required (parent : Yaml.Node) (key : String) : Option (Decode Node) → Decode Node
  | some read => read
  | none => fail parent (.missing key)

section

variable (toInt : Yaml.IntReader)

mutual

/-- A node. -/
def node : Yaml.Node → Decode Node
  | .mapping line _ [k, body] => locating line <|
    match k.text with
    | "ident" => do
      let s ← scalar "ident" body
      return .expr (.identifier (← building (Build.identifier s)))
    | "int" =>
      match toInt body with
      | .ok v => do return .expr (← Build.literal (.int v))
      | .error e => fail body (.badInteger e)
    | "string" => do
      let s ← scalar "string" body
      return .expr (← Build.literal (.string s))
    | "nullstr" => do return .expr (← Build.literal .null)
    | "and" => pair .and "and" body
    | "le" => pair .le "le" body
    | "eq" => pair .eq "eq" body
    | "assign" =>
      match body with
      | .mapping _ _ content => do
        let x ← name body content
        let v ← required body "value" (part? "value" content)
        return .expr (← building (Build.assign (operand x) (.filled v)))
      | body => fail body .notAMapping
    | "add_assign" =>
      match body with
      | .mapping _ _ content => do
        let x ← name body content
        let v ← required body "value" (part? "value" content)
        return .expr (← building (Build.addAssign (operand x) (.filled v)))
      | body => fail body .notAMapping
    | "inc" => do
      let s ← scalar "inc" body
      let x ← building (Build.identifier s)
      return .expr (← building (Build.increment (operand x)))
    | "call" =>
      match body with
      | .mapping _ _ content => do
        let f ← name body content
        let args ← (arguments content).getD (pure [])
        return .expr (← building (Build.invoke (operand f) (args.map .filled)))
      | body => fail body .notAMapping
    | "expr" => do
      let v ← node body
      return .stmt (← building (Build.expression (.filled v)))
    | "nop" => do return .stmt (← Build.nop)
    | "declare" =>
      match body with
      | .mapping _ _ content => do
        let t ← datatype body content
        let x ← name body content
        let v ←
          match part? "value" content with
          | some read => do
            let v ← read
            pure (Slot.filled v)
          | none => pure Slot.empty
        return .stmt (← building (Build.declaration t (operand x) v))
      | body => fail body .notAMapping
    | "block" =>
      match body with
      | .sequence _ _ items => do
        let ss ← statementsOf items
        return .stmt (← building (Build.block (ss.map fun s => .filled (.stmt s))))
      | body => fail body .notAList
    | "if" =>
      match body with
      | .mapping _ _ content => do
        let c ← required body "cond" (part? "cond" content)
        let b ← required body "body" (part? "body" content)
        return .stmt (← building (Build.ifThen (.filled c) (.filled b)))
      | body => fail body .notAMapping
    | "for" =>
      match body with
      | .mapping _ _ content => do
        let i ← required body "init" (part? "init" content)
        let c ← required body "cond" (part? "cond" content)
        let u ← required body "update" (part? "update" content)
        let b ← required body "body" (part? "body" content)
        return .stmt (← building
          (Build.forLoop (.filled i) (.filled c) (.filled u) (.filled b)))
      | body => fail body .notAMapping
    | kind => fail body (.unknownKind kind)
  | n => fail n .notANode

/-- A binary expression. -/
def pair (op : BinaryOp) (kind : String) : Yaml.Node → Decode Node
  | .sequence _ _ [l, r] => do
    let l ← node l
    let r ← node r
    return .expr (← building (Build.binary op (.filled l) (.filled r)))
  | n => fail n (.notAPair kind)

/-- The last node under a key, if there is one, still to be decoded. -/
def part? (key : String) : List Yaml.Node → Option (Decode Node)
  | k :: v :: rest =>
    match part? key rest with
    | some read => some read
    | none => if k.text == key then some (node v) else none
  | _ => none

/-- The last arguments of a call, if there are any, still to be decoded. -/
def arguments : List Yaml.Node → Option (Decode (List Node))
  | k :: v :: rest =>
    match arguments rest with
    | some read => some read
    | none => if k.text == "args" then some (argumentList v) else none
  | _ => none

/-- The arguments of a call. -/
def argumentList : Yaml.Node → Decode (List Node)
  | .sequence _ _ items => nodes items
  | n => fail n .argumentsNotAList

/-- A list of nodes. -/
def nodes : List Yaml.Node → Decode (List Node)
  | [] => pure []
  | n :: ns => do
    let first ← node n
    let rest ← nodes ns
    return first :: rest

/-- A list of statements. -/
def statementsOf : List Yaml.Node → Decode (List Stmt)
  | [] => pure []
  | n :: ns => do
    let first ← node n
    match first with
    | .stmt s =>
      let rest ← statementsOf ns
      return s :: rest
    | .expr e => throw (.locate n.line (.fault (.notAStatement (Node.expr e).kind)))

end

/-- The statements of a program. -/
def statements : Yaml.Node → Decode (List Stmt)
  | .sequence _ _ items => statementsOf toInt items
  | n => fail n .notAList

end

end Decode

end Stepwise
