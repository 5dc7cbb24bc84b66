import Stepwise.Proofs.Diagnosis

/-!
# Proofs - The error that decoding reports

Decoding stops at the first thing that is wrong.  Each decoder is followed along its own text
with one relation, `Build.StopsAt`: a computation ends with the first of a list of errors, and only
if there is none it gives a result.  A node gives its line to the errors below it that have none,
and leaves the line of the others as it is.

Main results:

- `Decode.reports_node`: a node is decoded exactly if nothing is wrong with it, and otherwise the
  first thing that is wrong is reported.
- `decode_error_located`: the error of a program is the first thing that is wrong with it; its
  line is the line of the node at fault, and its class tells nodes that do not fit from nodes
  that are malformed.
-/

namespace Stepwise

/-! ## Computations that end with the first of some errors -/

namespace Build

variable {ε ε' α β : Type} {d : Build ε α} {f : α → Build ε β} {es es' : List ε}
  {P : α → Prop} {Q : β → Prop}

/-- A computation ends with the first of a list of errors, whatever the supply is; if there is
none, it gives something with a property. -/
def StopsAt (d : Build ε α) (es : List ε) (P : α → Prop) : Prop :=
  ∀ s, (es = [] ∧ ∃ a s', d s = .ok (a, s') ∧ P a) ∨ ∃ e, es.head? = some e ∧ d s = .error e

theorem StopsAt.pure {a : α} (h : P a) : StopsAt (pure a : Build ε α) [] P :=
  fun s => .inl ⟨rfl, a, s, rfl, h⟩

/-- What is said of the result can be weakened. -/
theorem StopsAt.mono {P' : α → Prop} (h : StopsAt d es P) (hP : ∀ a, P a → P' a) :
    StopsAt d es P' := by
  intro s
  rcases h s with ⟨hnil, a, s', hd, ha⟩ | herr
  · exact .inl ⟨hnil, a, s', hd, hP a ha⟩
  · exact .inr herr

/-- A failure stops at its error, whatever else is wrong. -/
theorem StopsAt.throw (e : ε) (es : List ε) : StopsAt (throw e : Build ε α) (e :: es) P :=
  fun _ => .inr ⟨e, rfl, rfl⟩

/-- The errors of the second of two computations come after those of the first. -/
theorem StopsAt.bind (h : StopsAt d es P) (hf : ∀ a, P a → StopsAt (f a) es' Q) :
    StopsAt (d >>= f) (es ++ es') Q := by
  intro s
  rcases h s with ⟨rfl, a, s', hd, ha⟩ | ⟨e, he, hd⟩
  · rw [List.nil_append, bind_apply, hd]
    exact hf a ha s'
  · refine .inr ⟨e, ?_, by rw [bind_apply, hd]⟩
    rw [List.head?_append, he]
    rfl

/-- A computation that cannot fail before another one. -/
theorem StopsAt.bind_ok (h : StopsAt d [] P) (hf : ∀ a, P a → StopsAt (f a) es Q) :
    StopsAt (d >>= f) es Q :=
  h.bind hf

/-- A computation that cannot fail after another one. -/
theorem StopsAt.bind_last (h : StopsAt d es P) (hf : ∀ a, P a → StopsAt (f a) [] Q) :
    StopsAt (d >>= f) es Q := by
  rw [← List.append_nil es]
  exact h.bind hf

theorem StopsAt.pure_bind {a : α} (h : StopsAt (f a) es' Q) :
    StopsAt ((Pure.pure a : Build ε α) >>= f) es' Q :=
  h

/-- Where the errors are mapped, the first error is mapped. -/
theorem StopsAt.mapError (h : StopsAt d es P) (g : ε → ε') :
    StopsAt (mapError g d) (es.map g) P := by
  intro s
  unfold Build.mapError
  rcases h s with ⟨rfl, a, s', hd, ha⟩ | ⟨e, he, hd⟩
  · refine .inl ⟨rfl, a, s', ?_, ha⟩
    rw [hd]
    rfl
  · refine .inr ⟨g e, ?_, ?_⟩
    · rw [List.head?_map, he]
      rfl
    · rw [hd]
      rfl

theorem StopsAt.fresh : StopsAt (fresh : Build ε NodeId) [] fun _ => True :=
  fun s => .inl ⟨rfl, s.node, s.next, rfl, trivial⟩

/-! ## Builders -/

/-- A node is of a kind. -/
def Describes (kind? : Option Kind) : Node → Prop
  | .expr e => kind? = some e.kind ∧ e.kind.isStmt = false
  | .stmt st => kind? = some st.kind

/-- The kind of a statement is one of statements. -/
theorem isStmt_kind (st : Stmt) : st.kind.isStmt = true := by
  cases st <;> rfl

variable {kind? : Option Kind} {m : Node} {role : Role}

/-- A place for an expression stops at a statement. -/
theorem stopsAt_asExpr (hm : Describes kind? m) (hrole : role.demand = .expression) :
    StopsAt (ofExcept (asExpr role (.filled m))) (role.refusals kind?) fun e => m = .expr e := by
  cases m with
  | expr e =>
    obtain ⟨rfl, hexpr⟩ := hm
    rw [Role.refusals, hexpr, hrole, if_pos (by decide)]
    exact .pure rfl
  | stmt st =>
    obtain rfl : kind? = some st.kind := hm
    rw [Role.refusals, isStmt_kind, hrole, if_neg (by decide)]
    exact .throw _ _

/-- A place for a statement stops at an expression. -/
theorem stopsAt_asStmt (hm : Describes kind? m) (hrole : role.demand = .statement) :
    StopsAt (ofExcept (asStmt role (.filled m))) (role.refusals kind?) fun st => m = .stmt st := by
  cases m with
  | expr e =>
    obtain ⟨rfl, hexpr⟩ := hm
    rw [Role.refusals, hexpr, hrole, if_neg (by decide)]
    exact .throw _ _
  | stmt st =>
    obtain rfl : kind? = some st.kind := hm
    rw [Role.refusals, isStmt_kind, hrole, if_pos (by decide)]
    exact .pure rfl

theorem stopsAt_asOptional (hm : Describes kind? m) (hrole : role.demand = .expression) :
    StopsAt (ofExcept (asOptional role (.filled m))) (role.refusals kind?)
      fun v => ∃ e, v = some e := by
  cases m with
  | expr e =>
    obtain ⟨rfl, hexpr⟩ := hm
    rw [Role.refusals, hexpr, hrole, if_pos (by decide)]
    exact .pure ⟨e, rfl⟩
  | stmt st =>
    obtain rfl : kind? = some st.kind := hm
    rw [Role.refusals, isStmt_kind, hrole, if_neg (by decide)]
    exact .throw _ _

/-- A name stops if it is empty. -/
theorem stopsAt_identifier (name : String) :
    StopsAt (identifier name) (if name.isEmpty then [.missing .identifierName] else [])
      fun _ => True := by
  unfold identifier
  by_cases h : name.isEmpty = true
  · rw [if_pos h, if_pos h]
    exact .throw _ []
  · rw [if_neg h, if_neg h]
    exact .bind_ok .fresh fun _ _ => .pure trivial

/-- An operation stops at its left operand before its right one. -/
theorem stopsAt_binary {op : BinaryOp} {kind₁ kind₂ : Option Kind} {l r : Node}
    (hop : op.known = true) (hl : Describes kind₁ l) (hr : Describes kind₂ r) :
    StopsAt (binary op (.filled l) (.filled r))
      (Role.leftOperand.refusals kind₁ ++ Role.rightOperand.refusals kind₂)
      fun e => e.kind = op.kind := by
  unfold binary
  rw [hop]
  refine .bind (stopsAt_asExpr hl rfl) fun l' _ => ?_
  refine .bind_last (stopsAt_asExpr hr rfl) fun r' _ => ?_
  exact .bind_ok .fresh fun _ _ => .pure rfl

/-- An assignment stops at its value. -/
theorem stopsAt_assign {x : Identifier} (hm : Describes kind? m) :
    StopsAt (assign (Decode.operand x) (.filled m)) (Role.assignedValue.refusals kind?)
      fun e => e.kind = .of .assign := by
  refine .pure_bind ?_
  refine .bind_last (stopsAt_asExpr hm rfl) fun v _ => ?_
  exact .bind_ok .fresh fun _ _ => .pure rfl

theorem stopsAt_addAssign {x : Identifier} (hm : Describes kind? m) :
    StopsAt (addAssign (Decode.operand x) (.filled m)) (Role.addedValue.refusals kind?)
      fun e => e.kind = .of .addAssign := by
  refine .pure_bind ?_
  refine .bind_last (stopsAt_asExpr hm rfl) fun v _ => ?_
  exact .bind_ok .fresh fun _ _ => .pure rfl

theorem stopsAt_increment (x : Identifier) :
    StopsAt (increment (Decode.operand x)) [] fun e => e.kind = .of .increment := by
  refine .pure_bind ?_
  exact .bind_ok .fresh fun _ _ => .pure rfl

/-- Outcomes in turn need no identities if none of them does. -/
theorem ofExcept_bind (x : Except ε α) (g : α → Except ε β) :
    ofExcept (x >>= g) = ofExcept x >>= fun a => ofExcept (g a) := by
  cases x <;> rfl

/-- The first argument that is not an expression is refused. -/
theorem stopsAt_arguments {kinds : List (Option Kind)} {ms : List Node}
    (h : List.Forall₂ Describes kinds ms) :
    StopsAt (ofExcept ((ms.map Slot.filled).mapM (asExpr .argument)))
      (kinds.flatMap Role.argument.refusals) fun _ => True := by
  induction h with
  | nil => exact .pure trivial
  | cons hm _ ih =>
    rw [List.map_cons, List.mapM_cons, List.flatMap_cons, ofExcept_bind]
    refine .bind (stopsAt_asExpr hm rfl) fun v _ => ?_
    rw [ofExcept_bind]
    exact .bind_last ih fun vs _ => .pure trivial

/-- A call stops at the first argument that does not fit. -/
theorem stopsAt_invoke {f : Identifier} {kinds : List (Option Kind)} {ms : List Node}
    (h : List.Forall₂ Describes kinds ms) :
    StopsAt (invoke (Decode.operand f) (ms.map Slot.filled)) (kinds.flatMap Role.argument.refusals)
      fun e => e.kind = .of .invoke := by
  refine .pure_bind ?_
  refine .bind_last (stopsAt_arguments h) fun args _ => ?_
  exact .bind_ok .fresh fun _ _ => .pure rfl

/-- An expression statement stops at its value. -/
theorem stopsAt_expression (hm : Describes kind? m) :
    StopsAt (expression (.filled m)) (Role.statementValue.refusals kind?)
      fun st => st.kind = .of .expression := by
  refine .bind_last (stopsAt_asOptional hm rfl) fun v _ => ?_
  exact .bind_ok .fresh fun _ _ => .pure rfl

/-- A declaration stops at its initial value. -/
theorem stopsAt_declaration {t : Datatype} {x : Identifier} (ht : t.declarable = true)
    (hm : Describes kind? m) :
    StopsAt (declaration t (Decode.operand x) (.filled m)) (Role.initializer.refusals kind?)
      fun st => st.kind = .of .declaration := by
  unfold declaration
  rw [ht]
  refine .pure_bind ?_
  refine .bind_last (stopsAt_asOptional hm rfl) fun v _ => ?_
  exact .bind_ok .fresh fun _ _ => .pure rfl

theorem stopsAt_declaration_empty {t : Datatype} (x : Identifier) (ht : t.declarable = true) :
    StopsAt (declaration t (Decode.operand x) .empty) [] fun st => st.kind = .of .declaration := by
  unfold declaration
  rw [ht]
  refine .pure_bind ?_
  refine .pure_bind ?_
  exact .bind_ok .fresh fun _ _ => .pure rfl

/-- A block of statements stops at nothing. -/
theorem stopsAt_block (ss : List Stmt) :
    StopsAt (block (ss.map fun st => .filled (.stmt st))) [] fun st => st.kind = .of .block :=
  fun s => .inl ⟨rfl, .block s.node ss, s.next, block_apply ss s, rfl⟩

/-- A conditional statement stops at its condition before its body. -/
theorem stopsAt_ifThen {kind₁ kind₂ : Option Kind} {c b : Node} (hc : Describes kind₁ c)
    (hb : Describes kind₂ b) :
    StopsAt (ifThen (.filled c) (.filled b))
      (Role.ifCond.refusals kind₁ ++ Role.ifBody.refusals kind₂)
      fun st => st.kind = .of .ifThen := by
  refine .bind (stopsAt_asExpr hc rfl) fun c' _ => ?_
  refine .bind_last (stopsAt_asStmt hb rfl) fun b' _ => ?_
  exact .bind_ok .fresh fun _ _ => .pure rfl

/-- A loop stops at the first of its four parts that does not fit. -/
theorem stopsAt_forLoop {kind₁ kind₂ kind₃ kind₄ : Option Kind} {i c u b : Node}
    (hi : Describes kind₁ i) (hc : Describes kind₂ c) (hu : Describes kind₃ u)
    (hb : Describes kind₄ b) :
    StopsAt (forLoop (.filled i) (.filled c) (.filled u) (.filled b))
      (Role.forInit.refusals kind₁ ++ (Role.forCond.refusals kind₂ ++
        (Role.forUpdate.refusals kind₃ ++ Role.forBody.refusals kind₄)))
      fun st => st.kind = .of .forLoop := by
  refine .bind (stopsAt_asStmt hi rfl) fun i' _ => ?_
  refine .bind (stopsAt_asStmt hc rfl) fun c' _ => ?_
  refine .bind (stopsAt_asStmt hu rfl) fun u' _ => ?_
  refine .bind_last (stopsAt_asStmt hb rfl) fun b' _ => ?_
  exact .bind_ok .fresh fun _ _ => .pure rfl

end Build

/-! ## Decoders -/

namespace Decode

open Build

/-- The error that reports a finding: the fault with one line around it. -/
def Finding.error (f : Finding) : DecodeError :=
  .atLine f.line (.fault f.fault)

/-- The error of something that is wrong, before it gets the line of the node that is decoded. -/
def Failure.error : Failure → DecodeError
  | located f => f.error
  | rejection cause => .fault (.rejected cause)

section

variable (toInt : Yaml.IntReader)

/-- The errors of a part of the work on a node, before they get the line of that node. -/
def Stage.errors : Stage → List DecodeError
  | failure f => [f.error]
  | node m => (Decode.failures toInt m).map Finding.error

/-- A node is decoded as the table of keys says, or the first thing that is wrong with it is
reported. -/
def Reports (n : Yaml.Node) : Prop :=
  StopsAt (node toInt n) ((failures toInt n).map Finding.error) (Describes (kind? n))

end

variable {toInt : Yaml.IntReader} {line : Nat} {parent n : Yaml.Node} {content : List Yaml.Node}

/-- An error that has a line keeps it. -/
theorem Finding.locate_error (f : Finding) (line : Nat) : f.error.locate line = f.error := rfl

/-- The errors of a part of the work on a node get the line of the node unless they have one. -/
theorem Stage.map_locate_errors (st : Stage) (line : Nat) :
    (st.errors toInt).map (.locate line) = (st.failures toInt line).map Finding.error := by
  cases st with
  | failure f => cases f <;> rfl
  | node m =>
    rw [Stage.errors, List.map_map]
    exact List.map_congr_left fun f _ => f.locate_error line

/-- Giving a line to the errors of stages gives the findings of the stages. -/
theorem map_locate_errors (sts : List Stage) (line : Nat) :
    (sts.flatMap (Stage.errors toInt)).map (.locate line) =
      (sts.flatMap (Stage.failures toInt line)).map Finding.error := by
  rw [List.map_flatMap, List.map_flatMap]
  exact List.flatMap_congr fun st _ => st.map_locate_errors line

/-- A fault at a node has the line of the node. -/
theorem stopsAt_fail {α : Type} {P : α → Prop} (n : Yaml.Node) (fault : DecodeFault) :
    StopsAt (fail n fault) [.atLine n.line (.fault fault)] P :=
  .throw _ _

/-- A builder that rejects its operands is reported without a line. -/
theorem stopsAt_building {α : Type} {P : α → Prop} {b : Build NodeError α} {causes : List NodeError}
    (h : StopsAt b causes P) :
    StopsAt (building b) (causes.map fun cause => .fault (.rejected cause)) P :=
  h.mapError _

/-- What is done with a text, once it is one. -/
theorem stopsAt_scalar {α : Type} {P : α → Prop} (what : String) (n : Yaml.Node)
    {d : String → Decode α} {wrong : String → List Stage}
    (h : ∀ text, StopsAt (d text) ((wrong text).flatMap (Stage.errors toInt)) P) :
    StopsAt (do d (← scalar what n)) ((scalarStages what n wrong).flatMap (Stage.errors toInt))
      P := by
  cases n with
  | scalar l t text => exact .pure_bind (h text)
  | _ => exact .bind (stopsAt_fail _ _) fun _ (h : False) => h.elim

/-- The identifier that a text names. -/
theorem stopsAt_named (what : String) (n : Yaml.Node) :
    StopsAt (do
      let s ← scalar what n
      building (Build.identifier s)) ((nameStages what n).flatMap (Stage.errors toInt))
      fun _ => True := by
  refine stopsAt_scalar what n fun text => ?_
  have h : StopsAt (building _) _ _ := stopsAt_building (stopsAt_identifier text)
  by_cases hempty : text.isEmpty = true
  · rw [if_pos hempty] at h ⊢
    exact h
  · rw [if_neg hempty] at h ⊢
    exact h

/-- A name stops at its stages. -/
theorem stopsAt_name :
    StopsAt (name parent content)
      ((Field.stages ⟨"name", .name, false⟩ parent content).flatMap (Stage.errors toInt))
      fun _ => True := by
  unfold name value Field.stages
  cases value? "name" content with
  | none => exact .bind (stopsAt_fail _ _) fun _ (h : False) => h.elim
  | some v => exact .pure_bind (stopsAt_named "name" v)

/-- Every type that can be named can be declared. -/
theorem declarable_of_ofText? {text : String} {t : Datatype} (h : Datatype.ofText? text = some t) :
    t.declarable = true := by
  unfold Datatype.ofText? at h
  split at h <;> cases h <;> rfl

/-- A type stops at its stages, and can be declared. -/
theorem stopsAt_datatype :
    StopsAt (datatype parent content)
      ((Field.stages ⟨"type", .type, false⟩ parent content).flatMap (Stage.errors toInt))
      fun t => t.declarable = true := by
  unfold datatype value Field.stages
  cases value? "type" content with
  | none => exact .bind (stopsAt_fail _ _) fun _ (h : False) => h.elim
  | some v =>
    refine .pure_bind (stopsAt_scalar "type" v fun text => ?_)
    cases htype : Datatype.ofText? text with
    | none => exact stopsAt_fail _ _
    | some type => exact .pure (declarable_of_ofText? htype)

/-- The operand in a field that has to be there. -/
theorem stopsAt_required (key : String) (role : Role) (hread : ∀ v ∈ content, Reports toInt v) :
    StopsAt (required parent key (part? toInt key content))
      ((Field.stages ⟨key, .operand role, false⟩ parent content).flatMap (Stage.errors toInt))
      fun m => ∃ v, value? key content = some v ∧ Describes (kind? v) m := by
  rw [part?_eq]
  unfold Field.stages
  cases hv : value? key content with
  | none => exact stopsAt_fail _ _
  | some v =>
    simp only [Content.stages, List.flatMap_singleton]
    exact (hread v (mem_of_value? hv)).mono fun m hm => ⟨v, rfl, hm⟩

/-- Nodes in turn stop at the first error of the first node that has one. -/
theorem stopsAt_nodes {items : List Yaml.Node} (hread : ∀ m ∈ items, Reports toInt m) :
    StopsAt (nodes toInt items) ((items.map Stage.node).flatMap (Stage.errors toInt))
      (List.Forall₂ Describes (items.map kind?)) := by
  induction items with
  | nil => exact .pure .nil
  | cons n ns ih =>
    refine .bind (hread n (List.mem_cons_self ..)) fun m hm => ?_
    refine .bind_last (ih fun m hm => hread m (List.mem_cons_of_mem _ hm)) fun ms hms => ?_
    exact .pure (.cons hm hms)

/-- The statements of a list, up to the first node that is wrong or is an expression. -/
theorem stopsAt_statementsOf {items : List Yaml.Node} (hread : ∀ m ∈ items, Reports toInt m) :
    StopsAt (statementsOf toInt items) ((itemStages items).flatMap (Stage.errors toInt))
      fun _ => True := by
  induction items with
  | nil => exact .pure trivial
  | cons n ns ih =>
    have ih := ih fun m hm => hread m (List.mem_cons_of_mem _ hm)
    rw [itemStages, List.flatMap_cons, List.flatMap_append, List.flatMap_cons, List.append_assoc]
    refine .bind (hread n (List.mem_cons_self ..)) fun m hm => ?_
    cases m with
    | expr e =>
      rw [hm.1]
      simp only [hm.2]
      exact .throw _ _
    | stmt st =>
      rw [hm]
      simp only [isStmt_kind]
      exact .bind_last ih fun ss _ => .pure trivial

/-! ## Nodes -/

/-- The errors of a node, below a key of which the form is known, before they get its line. -/
def Form.errors (toInt : Yaml.IntReader) (form : Form) (key : String) (body : Yaml.Node) :
    List DecodeError :=
  (form.stages toInt key body).flatMap (Stage.errors toInt) ++
    (misfits (form.operandsOf body)).map fun cause => .fault (.rejected cause)

/-- What stands under a known key stops at the stages of its form. -/
theorem stopsAt_key {key : String} {entry : Entry} {body : Yaml.Node} {d : Decode Node}
    (hentry : Entry.ofKey? key = some entry)
    (h : StopsAt d (entry.form.errors toInt key body) (Describes (some entry.kind))) :
    StopsAt d ((keyStages toInt key body).flatMap (Stage.errors toInt))
      (Describes ((Entry.ofKey? key).map Entry.kind)) := by
  rw [keyStages, hentry]
  simp only [List.flatMap_append, List.flatMap_map]
  rw [Form.errors, List.map_eq_flatMap] at h
  exact h

/-- An unknown key is a fault by itself. -/
theorem stopsAt_unknown {key : String} {body : Yaml.Node} {kind? : Option Kind}
    (h : Entry.ofKey? key = none) :
    StopsAt (fail body (.unknownKind key)) ((keyStages toInt key body).flatMap (Stage.errors toInt))
      (Describes kind?) := by
  rw [keyStages, h]
  exact stopsAt_fail _ _

/-- The operands in a field that do not fit. -/
def Field.misfits (f : Field) (content : List Yaml.Node) : List NodeError :=
  (value? f.key content).toList.flatMap fun v => Decode.misfits (f.content.operandsOf v)

/-- A field of an operand misfits as the operand does. -/
theorem Field.misfits_operand {key : String} {role : Role} {optional : Bool} {v : Yaml.Node}
    (hv : value? key content = some v) :
    Field.misfits ⟨key, .operand role, optional⟩ content = role.refusals (kind? v) := by
  unfold Field.misfits
  rw [hv]
  simp [Decode.misfits, Content.operandsOf]

@[simp] theorem Field.misfits_name (key : String) (content : List Yaml.Node) :
    Field.misfits ⟨key, .name, false⟩ content = [] := by
  unfold Field.misfits
  cases value? key content <;> rfl

@[simp] theorem Field.misfits_type (key : String) (content : List Yaml.Node) :
    Field.misfits ⟨key, .type, false⟩ content = [] := by
  unfold Field.misfits
  cases value? key content <;> rfl

/-- Of several fields, all that is wrong comes before operands that do not fit. -/
theorem fields_errors (fs : List Field) (key : String) (l : Nat) (t : String)
    (content : List Yaml.Node) :
    (Form.fields fs).errors toInt key (.mapping l t content) =
      (fs.flatMap fun f => (f.stages (.mapping l t content) content).flatMap
        (Stage.errors toInt)) ++
        (fs.flatMap fun f => f.misfits content).map fun cause => .fault (.rejected cause) := by
  simp only [Form.errors, Form.stages, Form.operandsOf, Field.misfits, misfits,
    List.flatMap_assoc]

/-- The last step for an expression: it is built from its parts. -/
theorem stopsAt_expr {kind : Kind} {b : Build NodeError Expr} {causes : List NodeError}
    (h : StopsAt b causes fun e => e.kind = kind) (hkind : kind.isStmt = false) :
    StopsAt (do return .expr (← building b))
      (causes.map fun cause => .fault (.rejected cause)) (Describes (some kind)) := by
  refine .bind_last (stopsAt_building h) ?_
  rintro e rfl
  exact .pure ⟨rfl, hkind⟩

/-- The last step for a statement: it is built from its parts. -/
theorem stopsAt_stmt {kind : Kind} {b : Build NodeError Stmt} {causes : List NodeError}
    (h : StopsAt b causes fun st => st.kind = kind) :
    StopsAt (do return .stmt (← building b))
      (causes.map fun cause => .fault (.rejected cause)) (Describes (some kind)) := by
  refine .bind_last (stopsAt_building h) ?_
  rintro st rfl
  exact .pure rfl

theorem stopsAt_literal (v : Value) :
    StopsAt (do return .expr (← Build.literal v) : Decode Node) []
      (Describes (some (.of .constant))) :=
  fun s => .inl ⟨rfl, .expr (.constant ⟨s.node, v⟩), s.next, rfl, rfl, rfl⟩

theorem stopsAt_nop :
    StopsAt (do return .stmt (← Build.nop) : Decode Node) [] (Describes (some (.of .expression))) :=
  fun s => .inl ⟨rfl, .stmt (.expression s.node none), s.next, rfl, rfl⟩

/-- A pair of operands stops at its form, then at its operands, then at how they fit. -/
theorem stopsAt_pair {op : BinaryOp} (key : String) (hop : op.known = true)
    (hkind : op.kind.isStmt = false) (hread : ∀ m ∈ n.content, Reports toInt m) :
    StopsAt (pair toInt op key n) (Form.operands.errors toInt key n)
      (Describes (some op.kind)) := by
  cases n with
  | sequence l t items =>
    rcases items with - | ⟨l, - | ⟨r, - | ⟨extra, rest⟩⟩⟩
    · exact stopsAt_fail _ _
    · exact stopsAt_fail _ _
    · simp only [Form.errors, Form.stages, Form.operandsOf, misfits, List.flatMap_cons,
        List.flatMap_nil, List.append_nil, List.append_assoc]
      refine .bind (hread l (List.mem_cons_self ..)) fun l' hl => ?_
      refine .bind (hread r (List.mem_cons_of_mem _ (List.mem_cons_self ..))) fun r' hr => ?_
      exact stopsAt_expr (stopsAt_binary hop hl hr) hkind
    · exact stopsAt_fail _ _
  | _ => exact stopsAt_fail _ _

section Fields

variable {key : String} (l : Nat) (t : String)

/-- The two kinds of assignment are decoded alike. -/
theorem stopsAt_update {role : Role} {kind : Kind}
    {build : Operand → Operand → Build NodeError Expr}
    (hkind : kind.isStmt = false)
    (hbuild : ∀ x m k?, Describes k? m →
      StopsAt (build (operand x) (.filled m)) (role.refusals k?) fun e => e.kind = kind)
    (hread : ∀ v ∈ content, Reports toInt v) :
    StopsAt (do
      let x ← name (.mapping l t content) content
      let v ← required (.mapping l t content) "value" (part? toInt "value" content)
      return .expr (← building (build (operand x) (.filled v))))
      ((Form.fields [⟨"name", .name, false⟩, ⟨"value", .operand role, false⟩]).errors toInt key
        (.mapping l t content))
      (Describes (some kind)) := by
  rw [fields_errors]
  simp only [List.flatMap_cons, List.flatMap_nil, List.append_nil, List.append_assoc]
  refine .bind stopsAt_name fun x _ => ?_
  refine .bind (stopsAt_required "value" role hread) ?_
  rintro m ⟨v, hv, hm⟩
  rw [Field.misfits_operand hv, Field.misfits_name]
  exact stopsAt_expr (hbuild x m _ hm) hkind

/-- A call stops at its name, then at its arguments, then at how they fit. -/
theorem stopsAt_call
    (hargs : ∀ v ∈ content, ∀ m ∈ v.content, Reports toInt m) :
    StopsAt (do
      let f ← name (.mapping l t content) content
      let args ← (arguments toInt content).getD (pure [])
      return .expr (← building (Build.invoke (operand f) (args.map .filled))))
      ((Form.fields [⟨"name", .name, false⟩, ⟨"args", .arguments, true⟩]).errors toInt key
        (.mapping l t content))
      (Describes (some (.of .invoke))) := by
  rw [fields_errors]
  simp only [List.flatMap_cons, List.flatMap_nil, List.append_nil, List.append_assoc,
    Field.misfits_name, List.nil_append]
  refine .bind stopsAt_name fun f _ => ?_
  rw [arguments_eq]
  unfold Field.stages Field.misfits
  cases hv : value? "args" content with
  | none => exact .pure_bind (stopsAt_expr (stopsAt_invoke .nil) rfl)
  | some v =>
    cases v with
    | sequence l' t' items =>
      refine .bind (stopsAt_nodes (hargs _ (mem_of_value? hv))) fun ms hms => ?_
      have h := stopsAt_invoke (f := f) hms
      simp only [List.flatMap_map] at h
      simp only [Option.toList_some, List.flatMap_singleton, Content.operandsOf, misfits,
        List.flatMap_map]
      exact stopsAt_expr h rfl
    | _ => exact .bind (stopsAt_fail _ _) fun _ (h : False) => h.elim

/-- A declaration, the end of which depends on whether it has a value. -/
theorem stopsAt_declare {last : Datatype → Identifier → Decode Node}
    (hnone : value? "value" content = none → ∀ type x, last type x = do
      return .stmt (← building (Build.declaration type (operand x) .empty)))
    (hsome : ∀ v, value? "value" content = some v → ∀ type x, last type x = do
      let m ← node toInt v
      return .stmt (← building (Build.declaration type (operand x) (.filled m))))
    (hread : ∀ v ∈ content, Reports toInt v) :
    StopsAt (do
      let type ← datatype (.mapping l t content) content
      let x ← name (.mapping l t content) content
      last type x)
      ((Form.fields [⟨"type", .type, false⟩, ⟨"name", .name, false⟩,
        ⟨"value", .operand .initializer, true⟩]).errors toInt key (.mapping l t content))
      (Describes (some (.of .declaration))) := by
  rw [fields_errors]
  simp only [List.flatMap_cons, List.flatMap_nil, List.append_nil, List.append_assoc,
    Field.misfits_name, Field.misfits_type, List.nil_append]
  refine .bind stopsAt_datatype fun type htype => ?_
  refine .bind stopsAt_name fun x _ => ?_
  cases hv : value? "value" content with
  | none =>
    rw [hnone hv]
    simp only [Field.stages, Field.misfits, hv]
    exact stopsAt_stmt (stopsAt_declaration_empty x htype)
  | some v =>
    rw [hsome v hv, Field.misfits_operand hv]
    simp only [Field.stages, hv, Content.stages, List.flatMap_singleton]
    refine .bind (hread v (mem_of_value? hv)) fun m hm => ?_
    exact stopsAt_stmt (stopsAt_declaration htype hm)

/-- A conditional statement stops at its parts, then at how they fit. -/
theorem stopsAt_if (hread : ∀ v ∈ content, Reports toInt v) :
    StopsAt (do
      let c ← required (.mapping l t content) "cond" (part? toInt "cond" content)
      let b ← required (.mapping l t content) "body" (part? toInt "body" content)
      return .stmt (← building (Build.ifThen (.filled c) (.filled b))))
      ((Form.fields [⟨"cond", .operand .ifCond, false⟩,
        ⟨"body", .operand .ifBody, false⟩]).errors toInt key (.mapping l t content))
      (Describes (some (.of .ifThen))) := by
  rw [fields_errors]
  simp only [List.flatMap_cons, List.flatMap_nil, List.append_nil, List.append_assoc]
  refine .bind (stopsAt_required "cond" .ifCond hread) ?_
  rintro c ⟨vc, hvc, hc⟩
  refine .bind (stopsAt_required "body" .ifBody hread) ?_
  rintro b ⟨vb, hvb, hb⟩
  rw [Field.misfits_operand hvc, Field.misfits_operand hvb]
  exact stopsAt_stmt (stopsAt_ifThen hc hb)

theorem stopsAt_for (hread : ∀ v ∈ content, Reports toInt v) :
    StopsAt (do
      let i ← required (.mapping l t content) "init" (part? toInt "init" content)
      let c ← required (.mapping l t content) "cond" (part? toInt "cond" content)
      let u ← required (.mapping l t content) "update" (part? toInt "update" content)
      let b ← required (.mapping l t content) "body" (part? toInt "body" content)
      return .stmt (← building
        (Build.forLoop (.filled i) (.filled c) (.filled u) (.filled b))))
      ((Form.fields [⟨"init", .operand .forInit, false⟩, ⟨"cond", .operand .forCond, false⟩,
        ⟨"update", .operand .forUpdate, false⟩,
        ⟨"body", .operand .forBody, false⟩]).errors toInt key (.mapping l t content))
      (Describes (some (.of .forLoop))) := by
  rw [fields_errors]
  simp only [List.flatMap_cons, List.flatMap_nil, List.append_nil, List.append_assoc]
  refine .bind (stopsAt_required "init" .forInit hread) ?_
  rintro i ⟨vi, hvi, hi⟩
  refine .bind (stopsAt_required "cond" .forCond hread) ?_
  rintro c ⟨vc, hvc, hc⟩
  refine .bind (stopsAt_required "update" .forUpdate hread) ?_
  rintro u ⟨vu, hvu, hu⟩
  refine .bind (stopsAt_required "body" .forBody hread) ?_
  rintro b ⟨vb, hvb, hb⟩
  rw [Field.misfits_operand hvi, Field.misfits_operand hvc, Field.misfits_operand hvu,
    Field.misfits_operand hvb]
  exact stopsAt_stmt (stopsAt_forLoop hi hc hu hb)

end Fields

/-- A string stops if it is no scalar. -/
theorem stopsAt_string (body : Yaml.Node) :
    StopsAt (do
      let s ← scalar "string" body
      return .expr (← Build.literal (.string s)) : Decode Node)
      (Form.text.errors toInt "string" body) (Describes (some (.of .constant))) := by
  simp only [Form.errors, Form.stages, Form.operandsOf, misfits, List.flatMap_nil,
    List.map_nil, List.append_nil]
  exact stopsAt_scalar "string" body fun s => stopsAt_literal (.string s)

/-- A key with what stands below it, if the nodes below are reported right.  The arguments of a
call stand one level deeper than the other operands. -/
theorem stopsAt_node {line : Nat} {tag : String} {k body : Yaml.Node} (hbody : Reports toInt body)
    (hread : ∀ m ∈ body.content, Reports toInt m)
    (hargs : ∀ v ∈ body.content, ∀ m ∈ v.content, Reports toInt m) :
    StopsAt (node toInt (.mapping line tag [k, body]))
      (((keyStages toInt k.text body).flatMap (Stage.failures toInt line)).map Finding.error)
      (Describes ((Entry.ofKey? k.text).map Entry.kind)) := by
  unfold node
  rw [← map_locate_errors]
  refine StopsAt.mapError ?_ (DecodeError.locate line)
  generalize k.text = key
  split
  · refine stopsAt_key rfl ?_
    rw [← bind_assoc]
    exact .bind (stopsAt_named "ident" body) fun x _ => .pure ⟨rfl, rfl⟩
  · refine stopsAt_key rfl ?_
    simp only [Form.errors, Form.stages]
    cases toInt body with
    | ok v => exact stopsAt_literal (.int v)
    | error cause => exact stopsAt_fail _ _
  · exact stopsAt_key rfl (stopsAt_string body)
  · exact stopsAt_key rfl (stopsAt_literal .null)
  · exact stopsAt_key rfl (stopsAt_pair "and" rfl rfl hread)
  · exact stopsAt_key rfl (stopsAt_pair "le" rfl rfl hread)
  · exact stopsAt_key rfl (stopsAt_pair "eq" rfl rfl hread)
  · refine stopsAt_key rfl ?_
    cases body with
    | mapping l t content => exact stopsAt_update l t rfl (fun _ _ _ => stopsAt_assign) hread
    | _ => exact stopsAt_fail _ _
  · refine stopsAt_key rfl ?_
    cases body with
    | mapping l t content => exact stopsAt_update l t rfl (fun _ _ _ => stopsAt_addAssign) hread
    | _ => exact stopsAt_fail _ _
  · refine stopsAt_key rfl ?_
    rw [← bind_assoc]
    exact .bind (stopsAt_named "inc" body) fun x _ => stopsAt_expr (stopsAt_increment x) rfl
  · refine stopsAt_key rfl ?_
    cases body with
    | mapping l t content => exact stopsAt_call l t hargs
    | _ => exact stopsAt_fail _ _
  · refine stopsAt_key rfl ?_
    simp only [Form.errors, Form.stages, Form.operandsOf, misfits, List.flatMap_singleton]
    exact .bind hbody fun m hm => stopsAt_stmt (stopsAt_expression hm)
  · exact stopsAt_key rfl stopsAt_nop
  · refine stopsAt_key rfl ?_
    cases body with
    | mapping l t content =>
      have hread : ∀ v ∈ content, Reports toInt v := hread
      refine stopsAt_declare l t (fun h type x => ?_) (fun v h type x => ?_) hread
      · rw [part?_eq, h]
        rfl
      · rw [part?_eq, h]
        rfl
    | _ => exact stopsAt_fail _ _
  · refine stopsAt_key rfl ?_
    cases body with
    | sequence l t items =>
      exact .bind (stopsAt_statementsOf hread) fun ss _ => stopsAt_stmt (stopsAt_block ss)
    | _ => exact stopsAt_fail _ _
  · refine stopsAt_key rfl ?_
    cases body with
    | mapping l t content => exact stopsAt_if l t hread
    | _ => exact stopsAt_fail _ _
  · refine stopsAt_key rfl ?_
    cases body with
    | mapping l t content => exact stopsAt_for l t hread
    | _ => exact stopsAt_fail _ _
  · refine stopsAt_unknown ?_
    unfold Entry.ofKey?
    split
    all_goals first | rfl | contradiction

/-- A node is decoded exactly if nothing is wrong with it. -/
theorem reports_node (toInt : Yaml.IntReader) (n : Yaml.Node) : Reports toInt n := by
  induction n using Yaml.Node.encloses_induct with
  | h n ih =>
    unfold Reports
    rw [failures_eq]
    cases n with
    | mapping line tag content =>
      rcases content with - | ⟨k, - | ⟨body, - | ⟨extra, rest⟩⟩⟩
      · exact stopsAt_fail _ _
      · exact stopsAt_fail _ _
      · have hbody : Yaml.Node.Encloses (.mapping line tag [k, body]) body :=
          Yaml.Node.encloses_of_mem (List.mem_cons_of_mem _ (List.mem_cons_self ..))
        exact stopsAt_node (ih body hbody) (fun m hm => ih m (hbody.trans_mem hm))
          fun v hv m hm => ih m ((hbody.trans_mem hv).trans_mem hm)
      · exact stopsAt_fail _ _
    | _ => exact stopsAt_fail _ _

/-- The errors of the statements of a list have lines already. -/
theorem map_error_itemStages (items : List Yaml.Node) (line : Nat) :
    (itemStages items).flatMap (Stage.errors toInt) =
      ((itemStages items).flatMap (Stage.failures toInt line)).map Finding.error := by
  rw [List.map_flatMap]
  refine List.flatMap_congr fun st hst => ?_
  obtain ⟨m, -, hst⟩ := List.mem_flatMap.1 hst
  rcases List.mem_cons.1 hst with rfl | hst
  · rfl
  · split at hst
    · split at hst
      · cases hst
      · cases List.mem_singleton.1 hst
        rfl
    · cases hst

/-- Of a program the first thing that is wrong is reported. -/
theorem stopsAt_statements (toInt : Yaml.IntReader) (n : Yaml.Node) :
    StopsAt (statements toInt n) ((programFailures toInt n).map Finding.error) fun _ => True := by
  cases n with
  | sequence l t items =>
    have h := stopsAt_statementsOf fun m (_ : m ∈ items) => reports_node toInt m
    rw [map_error_itemStages items l] at h
    exact h
  | _ => exact stopsAt_fail _ _

/-! ## Classes of errors -/

variable {root m : Yaml.Node} {first : Wanted} {fault : DecodeFault}

/-- A refused node is an invalid operand. -/
theorem Refused.errorClass (h : Refused root first m fault) :
    fault.errorClass = .invalidOperand := by
  cases h with
  | item | name | operand => rfl

/-- A malformed node is a malformed program. -/
theorem Malformed.errorClass (h : Malformed toInt root first m fault) :
    fault.errorClass = .malformedProgram := by
  cases h <;> rfl

end Decode

open Decode

/-- Decoding fails with the first thing that is wrong in the document, if anything is, however
integers are read.  The error is a fault with one line around it, that of the node at fault, which
stands anywhere in the document; no node around it puts a line of its own there.  The error is
either a refusal or one of syntax, as its message says: a refusal exactly if the node is an
expression in a list of statements, or a node with an empty name or with an operand of the wrong
class, and one of syntax exactly if the node itself is malformed. -/
theorem decode_error_located (toInt : Yaml.IntReader) (root : Yaml.Node) (s : Supply)
    (err : DecodeError) :
    (statements toInt root s = .error err ↔
      ∃ first, (programFailures toInt root).head? = some first ∧ err = first.error) ∧
    (statements toInt root s = .error err →
      ∃ m fault, root.Holds m ∧ err = .atLine m.line (.fault fault) ∧
        err.message =
          "line " ++ toString m.line ++ ": " ++ (fault.cause ++ ": " ++ err.errorClass.text) ∧
        (err.errorClass = .invalidOperand ↔ Refused root .statements m fault) ∧
        (err.errorClass = .malformedProgram ↔ Malformed toInt root .statements m fault) ∧
        Xor (err.errorClass = .invalidOperand) (err.errorClass = .malformedProgram)) := by
  have hfirst : statements toInt root s = .error err ↔
      ∃ first, (programFailures toInt root).head? = some first ∧ err = first.error := by
    rcases stopsAt_statements toInt root s with ⟨hnil, ss, s', hok, -⟩ | ⟨e, he, herr⟩
    · rw [List.map_eq_nil_iff.1 hnil, hok]
      simp
    · rw [List.head?_map, Option.map_eq_some_iff] at he
      obtain ⟨first, hhead, rfl⟩ := he
      rw [herr, hhead]
      simp [eq_comm]
  refine ⟨hfirst, fun h => ?_⟩
  obtain ⟨⟨line, fault⟩, hhead, rfl⟩ := hfirst.1 h
  obtain ⟨m, hline, hfault⟩ := located_of_mem_programFailures (List.mem_of_mem_head? hhead)
  obtain rfl : line = m.line := hline
  refine ⟨m, fault, ?_, rfl, rfl, ?_⟩
  · exact hfault.elim Refused.holds Malformed.holds
  · change (fault.errorClass = _ ↔ _) ∧ (fault.errorClass = _ ↔ _) ∧
      Xor (fault.errorClass = _) (fault.errorClass = _)
    rcases hfault with hrefused | hmalformed
    · have hno : ¬Malformed toInt root .statements m fault := fun h => by
        cases hrefused.errorClass.symm.trans h.errorClass
      simp [hrefused.errorClass, hrefused, hno, Xor]
    · have hno : ¬Refused root .statements m fault := fun h => by
        cases hmalformed.errorClass.symm.trans h.errorClass
      simp [hmalformed.errorClass, hmalformed, hno, Xor]

/-- A program with a block, in which a conjunction has an empty statement for its right operand and
is followed by a node with an unknown key. -/
def blockWithMisfit : Yaml.Node :=
  let key := Yaml.Node.scalar 0 "!!str"
  .sequence 1 "!!seq" [.mapping 1 "!!map" [key "block", .sequence 2 "!!seq" [
    .mapping 2 "!!map" [key "expr", .mapping 3 "!!map" [key "and", .sequence 4 "!!seq" [
      .mapping 5 "!!map" [key "ident", .scalar 5 "!!str" "x"],
      .mapping 6 "!!map" [key "nop", .scalar 6 "!!null" ""]]]],
    .mapping 7 "!!map" [key "name", .scalar 7 "!!str" "y"]]]]

/-- The error is at the line of the conjunction, not at those of the operand or of what holds the
conjunction, and comes before the one of the unknown key. -/
theorem decode_error_located_blockWithMisfit :
    let fault := DecodeFault.rejected (.misfit .rightOperand (.of .expression))
    let err := DecodeError.atLine 3 (.fault fault)
    statements Yaml.Node.readInt blockWithMisfit ⟨1, 0⟩ = .error err ∧
      (∃ first, (programFailures Yaml.Node.readInt blockWithMisfit).head? = some first ∧
        err = first.error) ∧
      ∃ m, blockWithMisfit.Holds m ∧ m.line = 3 ∧
        Refused blockWithMisfit .statements m fault ∧
        ¬Malformed Yaml.Node.readInt blockWithMisfit .statements m fault := by
  intro fault err
  have herr : statements Yaml.Node.readInt blockWithMisfit ⟨1, 0⟩ = .error err := rfl
  obtain ⟨hfirst, hlocated⟩ :=
    decode_error_located Yaml.Node.readInt blockWithMisfit ⟨1, 0⟩ err
  obtain ⟨m, fault', hm, heq, -, hrefused, hmalformed, -⟩ := hlocated herr
  obtain ⟨hline, rfl⟩ : 3 = m.line ∧ fault = fault' := by simpa [err] using heq
  have hclass : err.errorClass = .invalidOperand := rfl
  refine ⟨herr, hfirst.1 herr, m, hm, hline.symm, hrefused.1 hclass, fun h => ?_⟩
  cases hclass.symm.trans (hmalformed.2 h)

end Stepwise
