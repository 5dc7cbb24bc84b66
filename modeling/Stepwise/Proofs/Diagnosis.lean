import Mathlib.Logic.Relation
import Stepwise.Proofs.Decoding

/-!
# Proofs - What is wrong with a document

A document can be wrong in many places at once; decoding reports one of them.  Here all that is
wrong with a document is listed, in the order in which it is read, without decoding anything:
a table says for each key what has to stand below it, and the nodes below are looked through in
turn.  Something that is wrong has a line of its own or, where parts do not fit together, gets
the line of the node whose parts they are.

Main definitions:

- `Decode.Form` and `Decode.Entry.ofKey?`: what has to stand below a key.
- `Decode.failures` and `Decode.programFailures`: all that is wrong, in order.
- `Decode.Stands`: what has to stand at each place of a document.
- `Decode.Refused` and `Decode.Malformed`: the node of a document that is at fault.

Main results:

- `Decode.located_of_mem_programFailures`: each failure is at the line of the node at fault.
-/

namespace Stepwise

/-! ## Nodes in other nodes -/

namespace Yaml.Node

/-- The nodes that stand directly in a node. -/
def content : Node → List Node
  | sequence _ _ content => content
  | mapping _ _ content => content
  | document _ content => content
  | other _ _ _ _ content => content
  | _ => []

/-- A node stands in another one, at any depth. -/
def Encloses (n m : Node) : Prop :=
  Relation.TransGen (fun a b => b ∈ a.content) n m

/-- A node is another one or stands in it. -/
def Holds (n m : Node) : Prop :=
  Relation.ReflTransGen (fun a b => b ∈ a.content) n m

variable {n m k : Node}

/-- A node encloses its content. -/
theorem encloses_of_mem (h : m ∈ n.content) : n.Encloses m :=
  .single h

/-- A node encloses the content of what it encloses. -/
theorem Encloses.trans_mem (h : n.Encloses m) (hk : k ∈ m.content) : n.Encloses k :=
  .tail h hk

/-- The content of a node is smaller than the node. -/
theorem sizeOf_lt_of_mem (h : m ∈ n.content) : sizeOf m < sizeOf n := by
  cases n with
  | scalar line tag text => cases h
  | reference line name inside target => cases h
  | sequence line tag items =>
    have hlt := List.sizeOf_lt_of_mem h
    simp only [content, sequence.sizeOf_spec] at hlt ⊢
    omega
  | mapping line tag items =>
    have hlt := List.sizeOf_lt_of_mem h
    simp only [content, mapping.sizeOf_spec] at hlt ⊢
    omega
  | document line items =>
    have hlt := List.sizeOf_lt_of_mem h
    simp only [content, document.sizeOf_spec] at hlt ⊢
    omega
  | other kind line tag text items =>
    have hlt := List.sizeOf_lt_of_mem h
    simp only [content, other.sizeOf_spec] at hlt ⊢
    omega

/-- What a node encloses is smaller than the node. -/
theorem Encloses.sizeOf_lt (h : n.Encloses m) : sizeOf m < sizeOf n := by
  induction h with
  | single h => exact sizeOf_lt_of_mem h
  | tail _ h ih => exact (sizeOf_lt_of_mem h).trans ih

/-- What holds of a node if it holds of the nodes in it holds of every node. -/
theorem encloses_induct {P : Node → Prop} (h : ∀ n, (∀ m, n.Encloses m → P m) → P n) (n : Node) :
    P n :=
  h n fun m _ => encloses_induct h m
termination_by sizeOf n
decreasing_by exact Encloses.sizeOf_lt (by assumption)

end Yaml.Node

/-- Whether nodes of a kind are statements. -/
def Kind.isStmt : Kind → Bool
  | .of v => v.isStmt
  | _ => false

/-- Why a node of a kind does not fit a place, if it does not.  Nothing is said about a node
that has no kind. -/
def Role.refusals (role : Role) : Option Kind → List NodeError
  | some kind => if kind.isStmt = (role.demand == .statement) then [] else [.misfit role kind]
  | none => []

namespace Decode

/-! ## What has to stand below a key -/

/-- What has to stand in a field of a mapping. -/
inductive Content where
  | name
  | type
  | operand (role : Role)
  | arguments
  deriving Repr

/-- A field of a mapping. -/
structure Field where
  key : String
  content : Content
  optional : Bool := false
  deriving Repr

/-- What has to stand below a key. -/
inductive Form where
  | anything
  | name
  | text
  | integer
  | operands
  | operand (role : Role)
  | fields (fields : List Field)
  | statements
  deriving Repr

/-- A key of the language: the kind of node that it makes, and what has to stand below it. -/
structure Entry where
  kind : Kind
  form : Form
  deriving Repr

/-- The keys of the language. -/
def Entry.ofKey? : String → Option Entry
  | "ident" => some ⟨.of .identifier, .name⟩
  | "int" => some ⟨.of .constant, .integer⟩
  | "string" => some ⟨.of .constant, .text⟩
  | "nullstr" => some ⟨.of .constant, .anything⟩
  | "and" => some ⟨.and, .operands⟩
  | "le" => some ⟨.lessOrEqual, .operands⟩
  | "eq" => some ⟨.equal, .operands⟩
  | "assign" => some ⟨.of .assign, .fields
      [⟨"name", .name, false⟩, ⟨"value", .operand .assignedValue, false⟩]⟩
  | "add_assign" => some ⟨.of .addAssign, .fields
      [⟨"name", .name, false⟩, ⟨"value", .operand .addedValue, false⟩]⟩
  | "inc" => some ⟨.of .increment, .name⟩
  | "call" => some ⟨.of .invoke, .fields
      [⟨"name", .name, false⟩, ⟨"args", .arguments, true⟩]⟩
  | "expr" => some ⟨.of .expression, .operand .statementValue⟩
  | "nop" => some ⟨.of .expression, .anything⟩
  | "declare" => some ⟨.of .declaration, .fields
      [⟨"type", .type, false⟩, ⟨"name", .name, false⟩, ⟨"value", .operand .initializer, true⟩]⟩
  | "block" => some ⟨.of .block, .statements⟩
  | "if" => some ⟨.of .ifThen, .fields
      [⟨"cond", .operand .ifCond, false⟩, ⟨"body", .operand .ifBody, false⟩]⟩
  | "for" => some ⟨.of .forLoop, .fields
      [⟨"init", .operand .forInit, false⟩, ⟨"cond", .operand .forCond, false⟩,
        ⟨"update", .operand .forUpdate, false⟩, ⟨"body", .operand .forBody, false⟩]⟩
  | _ => none

/-- The kind that the key of a node names. -/
def kind? : Yaml.Node → Option Kind
  | .mapping _ _ [k, _] => (Entry.ofKey? k.text).map Entry.kind
  | _ => none

/-- The names that are given in a field. -/
def Content.names : Content → Yaml.Node → List Yaml.Node
  | .name, n => [n]
  | _, _ => []

/-- The operands that are given in a field, each with its place. -/
def Content.operandsOf : Content → Yaml.Node → List (Role × Yaml.Node)
  | .operand role, n => [(role, n)]
  | .arguments, .sequence _ _ items => items.map (Role.argument, ·)
  | _, _ => []

/-- The names that are given below a key. -/
def Form.names : Form → Yaml.Node → List Yaml.Node
  | .name, n => [n]
  | .fields fs, .mapping _ _ content =>
    fs.flatMap fun f => (value? f.key content).toList.flatMap f.content.names
  | _, _ => []

/-- The operands that are given below a key, each with its place. -/
def Form.operandsOf : Form → Yaml.Node → List (Role × Yaml.Node)
  | .operands, .sequence _ _ [l, r] => [(.leftOperand, l), (.rightOperand, r)]
  | .operand role, n => [(role, n)]
  | .fields fs, .mapping _ _ content =>
    fs.flatMap fun f => (value? f.key content).toList.flatMap f.content.operandsOf
  | _, _ => []

/-! ## What is wrong -/

/-- Something that is wrong with a document, and the line that it is found at. -/
structure Finding where
  line : Nat
  fault : DecodeFault
  deriving Repr

/-- Something that is wrong: with a line of its own, or without. -/
inductive Failure where
  | located (e : Finding)
  | rejection (cause : NodeError)
  deriving Repr

/-- What is wrong with a node is at the line of that node. -/
def Failure.of (n : Yaml.Node) (fault : DecodeFault) : Failure :=
  .located ⟨n.line, fault⟩

/-- A failure at a line, unless it has a line of its own. -/
def Failure.atLine (line : Nat) : Failure → Finding
  | located e => e
  | rejection cause => ⟨line, .rejected cause⟩

/-- A part of the work on a node: something is wrong, or there is another node to be read. -/
inductive Stage where
  | failure (f : Failure)
  | node (n : Yaml.Node)
  deriving Repr

/-- A text, and what is wrong with it. -/
def scalarStages (what : String) (n : Yaml.Node) (wrong : String → List Stage) : List Stage :=
  match n with
  | .scalar _ _ s => wrong s
  | n => [.failure (.of n (.notAScalar what))]

/-- A name; it must not be empty. -/
def nameStages (what : String) (n : Yaml.Node) : List Stage :=
  scalarStages what n fun s =>
    if s.isEmpty then [.failure (.rejection (.missing .identifierName))] else []

/-- The statements of a list. -/
def itemStages (items : List Yaml.Node) : List Stage :=
  items.flatMap fun n => .node n :: match kind? n with
    | some kind => if kind.isStmt then [] else [.failure (.of n (.notAStatement kind))]
    | none => []

/-- What stands in a field. -/
def Content.stages : Content → Yaml.Node → List Stage
  | .name, n => nameStages "name" n
  | .type, n => scalarStages "type" n fun s =>
      if (Datatype.ofText? s).isSome then [] else [.failure (.of n (.unknownType s))]
  | .operand _, n => [.node n]
  | .arguments, n =>
    match n with
    | .sequence _ _ items => items.map .node
    | n => [.failure (.of n .argumentsNotAList)]

/-- A field of a mapping. -/
def Field.stages (f : Field) (parent : Yaml.Node) (content : List Yaml.Node) : List Stage :=
  match value? f.key content with
  | some v => f.content.stages v
  | none => if f.optional then [] else [.failure (.of parent (.missing f.key))]

section

variable (toInt : Yaml.IntReader)

/-- What stands below a key. -/
def Form.stages (key : String) : Form → Yaml.Node → List Stage
  | .anything, _ => []
  | .name, n => nameStages key n
  | .text, n => scalarStages key n fun _ => []
  | .integer, n =>
    match toInt n with
    | .ok _ => []
    | .error cause => [.failure (.of n (.badInteger cause))]
  | .operands, n =>
    match n with
    | .sequence _ _ [l, r] => [.node l, .node r]
    | n => [.failure (.of n (.notAPair key))]
  | .operand _, n => [.node n]
  | .fields fs, n =>
    match n with
    | .mapping _ _ content => fs.flatMap (·.stages n content)
    | n => [.failure (.of n .notAMapping)]
  | .statements, n =>
    match n with
    | .sequence _ _ items => itemStages items
    | n => [.failure (.of n .notAList)]

/-- Operands in places where they do not fit. -/
def misfits (operands : List (Role × Yaml.Node)) : List NodeError :=
  operands.flatMap fun p => p.1.refusals (kind? p.2)

/-- What stands below a key, and then how the operands fit. -/
def keyStages (key : String) (body : Yaml.Node) : List Stage :=
  match Entry.ofKey? key with
  | some entry => entry.form.stages toInt key body ++
      (misfits (entry.form.operandsOf body)).map fun cause => .failure (.rejection cause)
  | none => [.failure (.of body (.unknownKind key))]

/-- The work on a node. -/
def stages : Yaml.Node → List Stage
  | .mapping _ _ [k, body] => keyStages toInt k.text body
  | n => [.failure (.of n .notANode)]

end

/-- The work on a program. -/
def programStages : Yaml.Node → List Stage
  | .sequence _ _ items => itemStages items
  | n => [.failure (.of n .notAList)]

/-! ## The nodes at fault -/

/-- What has to stand at a place of a document. -/
inductive Wanted where
  | node
  | statements
  | form (key : String) (form : Form)
  | content (content : Content)
  deriving Repr

/-- The places of a document and what has to stand there, from what its root has to be. -/
inductive Stands (root : Yaml.Node) (first : Wanted) : Yaml.Node → Wanted → Prop
  | start : Stands root first root first
  | item {line tag items m} (h : Stands root first (.sequence line tag items) .statements)
      (hm : m ∈ items) : Stands root first m .node
  | body {line tag k body entry} (h : Stands root first (.mapping line tag [k, body]) .node)
      (hk : Entry.ofKey? k.text = some entry) : Stands root first body (.form k.text entry.form)
  | block {key m} (h : Stands root first m (.form key .statements)) :
      Stands root first m .statements
  | field {line tag content key fs f v}
      (h : Stands root first (.mapping line tag content) (.form key (.fields fs))) (hf : f ∈ fs)
      (hv : value? f.key content = some v) : Stands root first v (.content f.content)
  | operand {key form m role p} (h : Stands root first m (.form key form))
      (hp : (role, p) ∈ form.operandsOf m) : Stands root first p .node

/-- A node is at fault because of nodes that do not fit: it is an expression among statements, or
it has an empty name, or one of its operands is of the wrong class. -/
inductive Refused (root : Yaml.Node) (first : Wanted) : Yaml.Node → DecodeFault → Prop
  | item {line tag items m kind} (h : Stands root first (.sequence line tag items) .statements)
      (hm : m ∈ items) (hkind : kind? m = some kind) (hexpr : kind.isStmt = false) :
      Refused root first m (.notAStatement kind)
  | name {line tag k body entry l t} (h : Stands root first (.mapping line tag [k, body]) .node)
      (hentry : Entry.ofKey? k.text = some entry) (hname : .scalar l t "" ∈ entry.form.names body) :
      Refused root first (.mapping line tag [k, body]) (.rejected (.missing .identifierName))
  | operand {line tag k body entry role p kind}
      (h : Stands root first (.mapping line tag [k, body]) .node)
      (hentry : Entry.ofKey? k.text = some entry) (hp : (role, p) ∈ entry.form.operandsOf body)
      (hkind : kind? p = some kind) (hclass : kind.isStmt ≠ (role.demand == .statement)) :
      Refused root first (.mapping line tag [k, body]) (.rejected (.misfit role kind))

/-- A node is at fault by itself: it has the wrong shape for its place, or lacks a key that is
needed there, or is no integer, the name of no type, or the value of an unknown key. -/
inductive Malformed (toInt : Yaml.IntReader) (root : Yaml.Node) (first : Wanted) :
    Yaml.Node → DecodeFault → Prop
  | notAList {m} (h : Stands root first m .statements) (hm : m.shape ≠ .sequence) :
      Malformed toInt root first m .notAList
  | notANode {m} (h : Stands root first m .node)
      (hm : ∀ line tag k body, m ≠ .mapping line tag [k, body]) :
      Malformed toInt root first m .notANode
  | unknownKind {line tag k m} (h : Stands root first (.mapping line tag [k, m]) .node)
      (hk : Entry.ofKey? k.text = none) : Malformed toInt root first m (.unknownKind k.text)
  | nameNotAScalar {m key} (h : Stands root first m (.form key .name)) (hm : m.shape ≠ .scalar) :
      Malformed toInt root first m (.notAScalar key)
  | textNotAScalar {m key} (h : Stands root first m (.form key .text)) (hm : m.shape ≠ .scalar) :
      Malformed toInt root first m (.notAScalar key)
  | badInteger {m key cause} (h : Stands root first m (.form key .integer))
      (hm : toInt m = .error cause) : Malformed toInt root first m (.badInteger cause)
  | notAPair {m key} (h : Stands root first m (.form key .operands))
      (hm : ∀ line tag l r, m ≠ .sequence line tag [l, r]) :
      Malformed toInt root first m (.notAPair key)
  | notAMapping {m key fs} (h : Stands root first m (.form key (.fields fs)))
      (hm : m.shape ≠ .mapping) : Malformed toInt root first m .notAMapping
  | missing {line tag content key fs f}
      (h : Stands root first (.mapping line tag content) (.form key (.fields fs))) (hf : f ∈ fs)
      (hneeded : f.optional = false) (hm : ∀ e ∈ Yaml.Node.entries content, e.1.text ≠ f.key) :
      Malformed toInt root first (.mapping line tag content) (.missing f.key)
  | fieldNotAName {m} (h : Stands root first m (.content .name)) (hm : m.shape ≠ .scalar) :
      Malformed toInt root first m (.notAScalar "name")
  | fieldNotAType {m} (h : Stands root first m (.content .type)) (hm : m.shape ≠ .scalar) :
      Malformed toInt root first m (.notAScalar "type")
  | unknownType {line tag text} (h : Stands root first (.scalar line tag text) (.content .type))
      (hm : Datatype.ofText? text = none) :
      Malformed toInt root first (.scalar line tag text) (.unknownType text)
  | argumentsNotAList {m} (h : Stands root first m (.content .arguments))
      (hm : m.shape ≠ .sequence) : Malformed toInt root first m .argumentsNotAList

/-- An error is at the line of the node that is at fault. -/
def Located (toInt : Yaml.IntReader) (root : Yaml.Node) (first : Wanted) (e : Finding) : Prop :=
  ∃ m, e.line = m.line ∧ (Refused root first m e.fault ∨ Malformed toInt root first m e.fault)

/-- The work on a node `n` reads nodes that stand in it at places for nodes, and what is wrong is at
the line of the node at fault, or the node `n` itself is at fault. -/
inductive Stage.Proper (toInt : Yaml.IntReader) (root : Yaml.Node) (first : Wanted)
    (n : Yaml.Node) : Stage → Prop
  | node {m} (hm : n.Encloses m) (h : Stands root first m .node) :
      Proper toInt root first n (.node m)
  | located {e} (h : Located toInt root first e) : Proper toInt root first n (.failure (.located e))
  | rejection {cause} (h : Refused root first n (.rejected cause)) :
      Proper toInt root first n (.failure (.rejection cause))

/-- The value of a key is in the content. -/
theorem mem_of_value? {key : String} {content : List Yaml.Node} {v : Yaml.Node}
    (h : value? key content = some v) : v ∈ content := by
  induction content using Yaml.Node.entries.induct with
  | case1 k w rest ih =>
    rw [value?_cons] at h
    cases hrest : value? key rest with
    | some v' =>
      rw [hrest] at h
      cases h
      exact List.mem_cons_of_mem _ (List.mem_cons_of_mem _ (ih hrest))
    | none =>
      rw [hrest, Option.none_or] at h
      split at h
      · cases h
        exact List.mem_cons_of_mem _ (List.mem_cons_self ..)
      · cases h
  | case2 content hshort =>
    rw [value?, Yaml.Node.entries] at h
    · cases h
    · exact hshort

/-- A key without a value does not occur. -/
theorem ne_key_of_value?_eq_none {key : String} {content : List Yaml.Node}
    (h : value? key content = none) : ∀ e ∈ Yaml.Node.entries content, e.1.text ≠ key := by
  intro e he heq
  rw [value?, Option.map_eq_none_iff, List.find?_eq_none] at h
  exact h e (List.mem_reverse.2 he) (beq_iff_eq.2 heq)

/-- The operands of a form are held by the node. -/
theorem holds_of_mem_operandsOf {form : Form} {m p : Yaml.Node} {role : Role}
    (h : (role, p) ∈ form.operandsOf m) : m.Holds p := by
  unfold Form.operandsOf at h
  split at h
  · simp only [List.mem_cons, Prod.mk.injEq, List.not_mem_nil, or_false] at h
    rcases h with ⟨-, rfl⟩ | ⟨-, rfl⟩
    · exact .single (by simp [Yaml.Node.content])
    · exact .single (by simp [Yaml.Node.content])
  · cases List.mem_singleton.1 h
    exact .refl
  · obtain ⟨f, hf, h⟩ := List.mem_flatMap.1 h
    obtain ⟨v, hv, h⟩ := List.mem_flatMap.1 h
    refine .head (mem_of_value? (Option.mem_toList.1 hv)) ?_
    unfold Content.operandsOf at h
    split at h
    · cases List.mem_singleton.1 h
      exact .refl
    · obtain ⟨item, hitem, heq⟩ := List.mem_map.1 h
      cases heq
      exact .single hitem
    · cases h
  · cases h

section Stands

variable {toInt : Yaml.IntReader} {root m : Yaml.Node} {first w : Wanted} {fault : DecodeFault}

/-- The places of a document are in the document. -/
theorem Stands.holds (h : Stands root first m w) : root.Holds m := by
  induction h with
  | start => exact .refl
  | item _ hm ih => exact .tail ih hm
  | body _ _ ih => exact .tail ih (List.mem_cons_of_mem _ (List.mem_cons_self ..))
  | block _ ih => exact ih
  | field _ _ hv ih => exact .tail ih (mem_of_value? hv)
  | operand _ hp ih => exact .trans ih (holds_of_mem_operandsOf hp)

/-- A node is refused inside of the document. -/
theorem Refused.holds (h : Refused root first m fault) : root.Holds m := by
  cases h with
  | item h hm => exact (Stands.item h hm).holds
  | name h | operand h => exact h.holds

/-- A node is malformed inside of the document. -/
theorem Malformed.holds (h : Malformed toInt root first m fault) : root.Holds m := by
  cases h with
  | unknownKind h => exact .tail h.holds (List.mem_cons_of_mem _ (List.mem_cons_self ..))
  | notAList h | notANode h | nameNotAScalar h | textNotAScalar h | badInteger h | notAPair h
  | notAMapping h | missing h | fieldNotAName h | fieldNotAType h | unknownType h
  | argumentsNotAList h => exact h.holds

end Stands

/-- A role refuses nodes of the other class only. -/
theorem mem_refusals {role : Role} {kind? : Option Kind} {cause : NodeError}
    (h : cause ∈ role.refusals kind?) :
    ∃ kind, kind? = some kind ∧ kind.isStmt ≠ (role.demand == .statement) ∧
      cause = .misfit role kind := by
  cases kind? with
  | none => cases h
  | some kind =>
    rw [Role.refusals] at h
    split at h
    · cases h
    · rename_i hne
      exact ⟨kind, rfl, hne, List.mem_singleton.1 h⟩

section Proper

variable {toInt : Yaml.IntReader} {root n m : Yaml.Node} {first : Wanted}

/-- A malformed node is a proper failure. -/
theorem Stage.Proper.malformed {fault : DecodeFault} (h : Malformed toInt root first m fault) :
    Stage.Proper toInt root first n (.failure (.of m fault)) :=
  .located ⟨m, rfl, .inr h⟩

/-- What is wrong with a text is wrong with its place if it is no scalar, and else with the text. -/
theorem proper_scalarStages {what : String} {wrong : String → List Stage}
    (hshape : m.shape ≠ .scalar → Malformed toInt root first m (.notAScalar what))
    (hwrong : ∀ line tag text, m = .scalar line tag text →
      ∀ st ∈ wrong text, st.Proper toInt root first n) :
    ∀ st ∈ scalarStages what m wrong, st.Proper toInt root first n := by
  intro st hst
  cases m with
  | scalar line tag text => exact hwrong line tag text rfl st hst
  | _ =>
    cases List.mem_singleton.1 hst
    exact .malformed (hshape (by simp [Yaml.Node.shape]))

/-- The stages of a name are proper. -/
theorem proper_nameStages {what : String}
    (hshape : m.shape ≠ .scalar → Malformed toInt root first m (.notAScalar what))
    (hname : ∀ line tag, m = .scalar line tag "" →
      Refused root first n (.rejected (.missing .identifierName))) :
    ∀ st ∈ nameStages what m, st.Proper toInt root first n := by
  refine proper_scalarStages hshape ?_
  rintro line tag text rfl st hst
  split at hst
  · rename_i hempty
    cases List.mem_singleton.1 hst
    rw [String.isEmpty_iff] at hempty
    exact .rejection (hname line tag (by rw [hempty]))
  · cases hst

/-- The stages of a list of statements are proper. -/
theorem proper_itemStages {line : Nat} {tag : String} {items : List Yaml.Node}
    (h : Stands root first (.sequence line tag items) .statements)
    (hitems : ∀ m ∈ items, n.Encloses m) :
    ∀ st ∈ itemStages items, st.Proper toInt root first n := by
  intro st hst
  obtain ⟨m, hm, hst⟩ := List.mem_flatMap.1 hst
  rcases List.mem_cons.1 hst with rfl | hst
  · exact .node (hitems m hm) (.item h hm)
  · split at hst
    · rename_i kind hkind
      split at hst
      · cases hst
      · rename_i hexpr
        cases List.mem_singleton.1 hst
        exact .located ⟨m, rfl, .inl (.item h hm hkind (by simpa using hexpr))⟩
    · cases hst

/-- The stages of the content of a field are proper. -/
theorem Content.proper_stages (c : Content) (h : Stands root first m (.content c))
    (hm : n.Encloses m)
    (hname : ∀ line tag, .scalar line tag "" ∈ c.names m →
      Refused root first n (.rejected (.missing .identifierName)))
    (hoperand : ∀ role p, (role, p) ∈ c.operandsOf m → Stands root first p .node) :
    ∀ st ∈ c.stages m, st.Proper toInt root first n := by
  cases c with
  | name =>
    refine proper_nameStages (.fieldNotAName h) fun line tag heq => hname line tag ?_
    rw [heq]
    exact List.mem_singleton_self _
  | type =>
    refine proper_scalarStages (.fieldNotAType h) ?_
    rintro line tag text rfl st hst
    split at hst
    · cases hst
    · rename_i htext
      cases List.mem_singleton.1 hst
      exact .malformed (.unknownType h (by simpa using htext))
  | operand role =>
    intro st hst
    cases List.mem_singleton.1 hst
    exact .node hm (hoperand role m (List.mem_singleton_self _))
  | arguments =>
    intro st hst
    cases m with
    | sequence line tag items =>
      obtain ⟨item, hitem, rfl⟩ := List.mem_map.1 hst
      exact .node (hm.trans_mem hitem) (hoperand .argument item (List.mem_map_of_mem hitem))
    | _ =>
      cases List.mem_singleton.1 hst
      exact .malformed (.argumentsNotAList h (by simp [Yaml.Node.shape]))

/-- The stages of a field are proper. -/
theorem Field.proper_stages {line : Nat} {tag key : String} {content : List Yaml.Node}
    {fs : List Field} {f : Field}
    (h : Stands root first (.mapping line tag content) (.form key (.fields fs))) (hf : f ∈ fs)
    (hm : n.Encloses (.mapping line tag content))
    (hname : ∀ l t, .scalar l t "" ∈ (Form.fields fs).names (.mapping line tag content) →
      Refused root first n (.rejected (.missing .identifierName))) :
    ∀ st ∈ f.stages (.mapping line tag content) content, st.Proper toInt root first n := by
  intro st hst
  rw [Field.stages] at hst
  split at hst
  · rename_i v hv
    have hnames : ∀ x ∈ f.content.names v,
        x ∈ (Form.fields fs).names (.mapping line tag content) :=
      fun x hx => List.mem_flatMap.2 ⟨f, hf, by simpa [hv] using hx⟩
    have hoperands : ∀ p ∈ f.content.operandsOf v,
        p ∈ (Form.fields fs).operandsOf (.mapping line tag content) :=
      fun p hp => List.mem_flatMap.2 ⟨f, hf, by simpa [hv] using hp⟩
    exact f.content.proper_stages (.field h hf hv) (hm.trans_mem (mem_of_value? hv))
      (fun l t hx => hname l t (hnames _ hx))
      (fun role p hp => .operand h (hoperands _ hp)) st hst
  · rename_i hv
    split at hst
    · cases hst
    · rename_i hneeded
      cases List.mem_singleton.1 hst
      exact .malformed (.missing h hf (by simpa using hneeded) (ne_key_of_value?_eq_none hv))

/-- The stages of a form are proper. -/
theorem Form.proper_stages (form : Form) {key : String} (h : Stands root first m (.form key form))
    (hm : n.Encloses m)
    (hname : ∀ line tag, .scalar line tag "" ∈ form.names m →
      Refused root first n (.rejected (.missing .identifierName))) :
    ∀ st ∈ form.stages toInt key m, st.Proper toInt root first n := by
  intro st hst
  cases form with
  | anything => cases hst
  | name =>
    refine proper_nameStages (.nameNotAScalar h) (fun line tag heq => hname line tag ?_) st hst
    rw [heq]
    exact List.mem_singleton_self _
  | text => exact proper_scalarStages (.textNotAScalar h) (by simp) st hst
  | integer =>
    simp only [Form.stages] at hst
    split at hst
    · cases hst
    · rename_i cause hcause
      cases List.mem_singleton.1 hst
      exact .malformed (.badInteger h hcause)
  | operands =>
    simp only [Form.stages] at hst
    split at hst
    · rename_i line tag l r
      simp only [List.mem_cons, List.not_mem_nil, or_false] at hst
      rcases hst with rfl | rfl
      · exact .node (hm.trans_mem (by simp [Yaml.Node.content]))
          (.operand h (List.mem_cons_self ..))
      · exact .node (hm.trans_mem (by simp [Yaml.Node.content]))
          (.operand h (List.mem_cons_of_mem _ (List.mem_cons_self ..)))
    · rename_i hpair
      cases List.mem_singleton.1 hst
      exact .malformed (.notAPair h hpair)
  | operand role =>
    cases List.mem_singleton.1 hst
    exact .node hm (.operand h (List.mem_singleton_self _))
  | fields fs =>
    cases m with
    | mapping line tag content =>
      obtain ⟨f, hf, hst⟩ := List.mem_flatMap.1 hst
      exact Field.proper_stages h hf hm hname st hst
    | _ =>
      cases List.mem_singleton.1 hst
      exact .malformed (.notAMapping h (by simp [Yaml.Node.shape]))
  | statements =>
    cases m with
    | sequence line tag items =>
      exact proper_itemStages (.block h) (fun item hitem => hm.trans_mem hitem) st hst
    | _ =>
      cases List.mem_singleton.1 hst
      exact .malformed (.notAList (.block h) (by simp [Yaml.Node.shape]))

/-- The stages of a node are proper. -/
theorem proper_stages (h : Stands root first n .node) :
    ∀ st ∈ stages toInt n, st.Proper toInt root first n := by
  intro st hst
  unfold stages at hst
  split at hst
  · rename_i line tag k body
    have hbody : Yaml.Node.Encloses (.mapping line tag [k, body]) body :=
      Yaml.Node.encloses_of_mem (List.mem_cons_of_mem _ (List.mem_cons_self ..))
    unfold keyStages at hst
    split at hst
    · rename_i entry hentry
      rcases List.mem_append.1 hst with hst | hst
      · exact entry.form.proper_stages (.body h hentry) hbody
          (fun l t hname => .name h hentry hname) st hst
      · obtain ⟨cause, hcause, rfl⟩ := List.mem_map.1 hst
        obtain ⟨⟨role, p⟩, hp, hcause⟩ := List.mem_flatMap.1 hcause
        obtain ⟨kind, hkind, hne, rfl⟩ := mem_refusals hcause
        exact .rejection (.operand h hentry hp hkind hne)
    · rename_i hentry
      cases List.mem_singleton.1 hst
      exact .malformed (.unknownKind h hentry)
  · rename_i hshape
    cases List.mem_singleton.1 hst
    exact .malformed (.notANode h hshape)

/-- The stages of a program are proper. -/
theorem proper_programStages (root : Yaml.Node) :
    ∀ st ∈ programStages root, st.Proper toInt root .statements root := by
  intro st hst
  cases root with
  | sequence line tag items =>
    have hitems : ∀ m ∈ items, Yaml.Node.Encloses (.sequence line tag items) m :=
      fun m hm => Yaml.Node.encloses_of_mem hm
    exact proper_itemStages .start hitems st hst
  | _ =>
    cases List.mem_singleton.1 hst
    exact .malformed (.notAList .start (by simp [Yaml.Node.shape]))

/-- The nodes among the stages of a node are enclosed by it. -/
theorem encloses_of_mem_stages (h : .node m ∈ stages toInt n) : n.Encloses m := by
  cases proper_stages .start _ h with
  | node hm => exact hm

end Proper

/-! ## Failures in order -/

/-- What is found wrong by a part of the work on a node at a line, given what is wrong with the
node that is read. -/
def Stage.collect (line : Nat) :
    (st : Stage) → ((m : Yaml.Node) → st = .node m → List Finding) → List Finding
  | failure f, _ => [f.atLine line]
  | node m, read => read m rfl

section

variable (toInt : Yaml.IntReader)

/-- All that is wrong with a node, in the order in which it is read. -/
def failures (n : Yaml.Node) : List Finding :=
  (stages toInt n).attach.flatMap fun st => st.1.collect n.line fun m _ => failures m
termination_by sizeOf n
decreasing_by
  rename_i hst
  exact (encloses_of_mem_stages (hst ▸ st.2)).sizeOf_lt

/-- What is found wrong by a part of the work on a node at a line. -/
def Stage.failures (line : Nat) (st : Stage) : List Finding :=
  st.collect line fun m _ => Decode.failures toInt m

/-- All that is wrong with a program, in the order in which it is read. -/
def programFailures (n : Yaml.Node) : List Finding :=
  (programStages n).flatMap (Stage.failures toInt n.line)

/-- The failures of a node are those of its stages in turn. -/
theorem failures_eq (n : Yaml.Node) :
    failures toInt n = (stages toInt n).flatMap (Stage.failures toInt n.line) := by
  rw [failures, ← List.attach_map_subtype_val (stages toInt n), List.flatMap_map,
    List.attach_map_subtype_val]
  rfl

end

variable {toInt : Yaml.IntReader}

/-- What is found by a part of the work on a node is at the line of the node at fault, if this
is so for the nodes that are read. -/
theorem Stage.Proper.located_failures {root n : Yaml.Node} {first : Wanted} {st : Stage}
    (h : st.Proper toInt root first n)
    (hread : ∀ m, n.Encloses m → Stands root first m .node →
      ∀ e ∈ Decode.failures toInt m, Located toInt root first e) :
    ∀ e ∈ st.failures toInt n.line, Located toInt root first e := by
  intro e he
  cases h with
  | node hm h => exact hread _ hm h e he
  | located h =>
    cases List.mem_singleton.1 he
    exact h
  | rejection h =>
    cases List.mem_singleton.1 he
    exact ⟨n, rfl, .inl h⟩

/-- Every failure of a node is located. -/
theorem located_of_mem_failures {root : Yaml.Node} {first : Wanted} (n : Yaml.Node) :
    Stands root first n .node → ∀ e ∈ failures toInt n, Located toInt root first e := by
  induction n using Yaml.Node.encloses_induct with
  | h n ih =>
    intro hn e he
    rw [failures_eq] at he
    obtain ⟨st, hst, he⟩ := List.mem_flatMap.1 he
    exact (proper_stages hn st hst).located_failures ih e he

/-- All that is found wrong with a program is at the line of the node at fault. -/
theorem located_of_mem_programFailures {root : Yaml.Node} {e : Finding}
    (he : e ∈ programFailures toInt root) : Located toInt root .statements e := by
  obtain ⟨st, hst, he⟩ := List.mem_flatMap.1 he
  exact (proper_programStages root st hst).located_failures
    (fun m _ => located_of_mem_failures m) e he

end Decode

end Stepwise
