import Stepwise.Proofs.Lowerability
import Stepwise.Proofs.RoundTrip
import Stepwise.Proofs.Views

/-!
# Proofs - What is decoded is well formed

Whatever tree of YAML nodes is decoded and however its integers are read, each node of
the result was built for one place of the result.  Every decoder is followed along its
own text with one relation, `Decode.Draws`: of a computation that starts after some
nodes were made, it says which nodes were made when it ends.  As the nodes of a result
are made of all that was made before, no node is left over and none is used twice.

Main results:

- `Decode.draws_statementsOf`: the nodes of decoded statements are those that were
  made meanwhile, and the statements are checked.
- `decoded_wellFormed`: decoded statements are `WellFormed`, and they can be lowered
  exactly if all their loops are tested.
-/

namespace Stepwise

/-! ## Nodes that were made one after the other -/

/-- All nodes that were made while the identities from `a` up to `b` were given out: each one
has one of these identities, none shares it with another one, and all can be described. -/
structure Minted (a : Nat) (nodes : List Node) (b : Nat) : Prop where
  le : a ≤ b
  nodup : (nodes.map Node.id).Nodup
  mem : ∀ k : Nat, k ∈ nodes.map Node.id → a ≤ k ∧ k < b
  describable : Describable nodes

namespace Minted

variable {a b c : Nat} {nodes more : List Node} {n : Node}

theorem nil (a : Nat) : Minted a [] a :=
  ⟨Nat.le_refl a, List.nodup_nil, by simp, by simp, by simp⟩

/-- Nodes that are made later differ from those made before. -/
theorem append (h : Minted a nodes b) (h' : Minted b more c) : Minted a (nodes ++ more) c := by
  have hle := h.le
  have hle' := h'.le
  refine ⟨by omega, ?_, fun k hk => ?_, fun st hst => ?_, fun const hconst => ?_⟩
  · rw [List.map_append, List.nodup_append]
    refine ⟨h.nodup, h'.nodup, ?_⟩
    rintro k hk m hm rfl
    have := h.mem k hk
    have := h'.mem k hm
    omega
  · rw [List.map_append, List.mem_append] at hk
    rcases hk with hk | hk
    · have := h.mem k hk
      omega
    · have := h'.mem k hk
      omega
  · exact (List.mem_append.1 hst).elim (h.describable.source st) (h'.describable.source st)
  · exact (List.mem_append.1 hconst).elim (h.describable.constants const)
      (h'.describable.constants const)

/-- A single node with the next identity. -/
theorem single (hid : n.id = a) (hn : Describable [n]) : Minted a [n] (a + 1) := by
  refine ⟨Nat.le_succ a, List.nodup_singleton _, fun k hk => ?_, hn⟩
  obtain rfl : k = n.id := List.mem_singleton.1 hk
  rw [hid]
  omega

/-- A node that is made from others comes after them. -/
theorem cover (h : Minted a nodes b) (hid : n.id = b) (hn : Describable [n]) :
    Minted a (n :: nodes) (b + 1) := by
  have hboth := h.append (single hid hn)
  have hperm : (n :: nodes).Perm (nodes ++ [n]) := (List.perm_append_singleton n nodes).symm
  refine ⟨hboth.le, ?_, fun k hk => ?_, hboth.describable.mono hperm.subset⟩
  · exact ((hperm.map Node.id).nodup_iff).2 hboth.nodup
  · exact hboth.mem k ((hperm.map Node.id).mem_iff.1 hk)

end Minted

/-! ## What a decoder makes -/

namespace Decode

section Draws

variable {α β : Type} {before : List Node} {d : Decode α} {f : α → Decode β}
  {after : α → List Node} {last : β → List Node} {P : α → Prop} {Q : β → Prop}

/-- A computation that starts when the nodes `before` were made: if it succeeds, the nodes of
what it gives are all that were made by then, and what it gives has a property. -/
def Draws (before : List Node) (d : Decode α) (after : α → List Node) (P : α → Prop) : Prop :=
  ∀ ⦃k : Nat⦄ ⦃s a s'⦄, Minted k before s.node → d s = .ok (a, s') →
    Minted k (after a) s'.node ∧ P a

theorem Draws.pure {a : α} (hnodes : before = after a) (h : P a) :
    Draws before (pure a) after P := by
  intro k s b s' hm hb
  cases hb
  exact ⟨hnodes ▸ hm, h⟩

/-- A computation that fails makes nothing. -/
theorem Draws.throw (e : DecodeError) : Draws before (throw e) after P := by
  intro k s a s' hm h
  cases h

theorem Draws.fail (n : Yaml.Node) (fault : DecodeFault) :
    Draws before (fail n fault) after P :=
  .throw _

/-- A line is given to errors only. -/
theorem Draws.locating (h : Draws before d after P) (line : Nat) :
    Draws before (locating line d) after P := by
  intro k s a s' hm hd
  unfold Decode.locating Build.mapError at hd
  cases hds : d s with
  | error e =>
    rw [hds] at hd
    cases hd
  | ok r =>
    rw [hds] at hd
    cases hd
    exact h hm hds

/-- Decoders in turn draw the nodes of the first and then those of the second. -/
theorem Draws.bind (h : Draws before d after P) (hf : ∀ a, P a → Draws (after a) (f a) last Q) :
    Draws before (d >>= f) last Q := by
  intro k s b s' hm hb
  rw [Build.bind_apply] at hb
  cases hd : d s with
  | error e =>
    rw [hd] at hb
    cases hb
  | ok r =>
    obtain ⟨a, s₁⟩ := r
    rw [hd] at hb
    obtain ⟨hm', ha⟩ := h hm hd
    exact hf a ha hm' hb

/-- What a computation makes by itself it makes after other nodes. -/
theorem Draws.frame (h : Draws [] d after P) (before : List Node) :
    Draws before d (fun a => before ++ after a) P := by
  intro k s a s' hm hd
  obtain ⟨hm', ha⟩ := h (.nil s.node) hd
  exact ⟨hm.append hm', ha⟩

/-- A builder that gives a node with the next identity, made from all the nodes before. -/
theorem Draws.building {b : Build NodeError α}
    (h : ∀ s a s', b s = .ok (a, s') → s' = s.next ∧ P a ∧
      ∃ n, after a = n :: before ∧ n.id = s.node ∧ Describable [n]) :
    Draws before (building b) after P := by
  intro k s a s' hm hb
  unfold Decode.building Build.mapError at hb
  cases hbs : b s with
  | error e =>
    rw [hbs] at hb
    cases hb
  | ok r =>
    rw [hbs] at hb
    cases hb
    obtain ⟨rfl, ha, n, hafter, hid, hn⟩ := h s a s' hbs
    rw [hafter]
    exact ⟨hm.cover hid hn, ha⟩

end Draws

/-! ## Builders -/

/-- A source statement can be described. -/
theorem describable_stmt {st : Stmt} (h : st.isSource = true) : Describable [.stmt st] := by
  refine ⟨fun st' hst' => ?_, fun c hc => ?_⟩
  · cases List.mem_singleton.1 hst'
    exact h
  · cases List.mem_singleton.1 hc

/-- An expression that is no constant can be described. -/
theorem describable_expr {e : Expr} (h : e.constant? = none) : Describable [.expr e] := by
  refine ⟨fun st hst => ?_, fun c hc => ?_⟩
  · cases List.mem_singleton.1 hst
  · cases List.mem_singleton.1 hc
    cases h

/-- Reading a scalar draws no nodes. -/
theorem draws_scalar (what : String) (n : Yaml.Node) :
    Draws [] (scalar what n) (fun _ => []) fun _ => True := by
  cases n with
  | scalar line tag text => exact .pure rfl trivial
  | _ => exact .fail _ _

/-- Building a name draws its node, and the name is checked. -/
theorem draws_identifier (name : String) :
    Draws [] (building (Build.identifier name)) (fun i => [i.node]) Identifier.Checked := by
  refine .building fun s i s' h => ?_
  by_cases hname : name.isEmpty = true
  · simp [Build.identifier, hname] at h
  · simp [Build.identifier, hname] at h
    obtain ⟨rfl, rfl⟩ := h
    refine ⟨rfl, by simpa [Identifier.Checked] using hname, _, rfl, rfl, describable_expr rfl⟩

/-- Looking up the value of a key draws no nodes. -/
theorem draws_value (parent : Yaml.Node) (key : String) (content : List Yaml.Node) :
    Draws [] (value parent key content) (fun _ => []) fun _ => True := by
  unfold value
  split
  · exact .pure rfl trivial
  · exact .fail _ _

/-- Reading a name draws its node, and the name is checked. -/
theorem draws_name (parent : Yaml.Node) (content : List Yaml.Node) :
    Draws [] (name parent content) (fun i => [i.node]) Identifier.Checked := by
  refine .bind (draws_value _ _ _) fun n _ => .bind (draws_scalar _ n) fun s _ => ?_
  exact draws_identifier s

/-- Reading a type draws no nodes. -/
theorem draws_datatype (parent : Yaml.Node) (content : List Yaml.Node) :
    Draws [] (datatype parent content) (fun _ => []) fun _ => True := by
  refine .bind (draws_value _ _ _) fun n _ => .bind (draws_scalar _ n) fun s _ => ?_
  split
  · exact .pure rfl trivial
  · exact .fail _ _

/-- A literal of a type that can be declared is a checked node. -/
theorem draws_literal {v : Value} (h : v.datatype.declarable = true) :
    Draws [] (do return .expr (← Build.literal v)) Node.nodes Node.Checked := by
  intro k s m s' hm hb
  cases hb
  refine ⟨hm.cover rfl ⟨fun st hst => ?_, fun c hc => ?_⟩, trivial⟩
  · cases List.mem_singleton.1 hst
  · cases List.mem_singleton.1 hc
    exact h

/-- An operation draws its node after those of its operands. -/
theorem draws_binary (op : BinaryOp) {l r : Node} (hl : l.Checked) (hr : r.Checked) :
    Draws (l.nodes ++ r.nodes) (building (Build.binary op (.filled l) (.filled r)))
      Expr.nodes Expr.Checked := by
  refine .building fun s e s' h => ?_
  cases hop : op.known <;> cases l <;> cases r <;>
    simp [Build.binary, Build.asExpr, Build.refuse, hop] at h
  obtain ⟨rfl, rfl⟩ := h
  exact ⟨rfl, ⟨hop, hl, hr⟩, _, rfl, rfl, describable_expr rfl⟩

/-- An assignment draws its node after its name and its value. -/
theorem draws_assign {x : Identifier} {v : Node} (hx : x.Checked) (hv : v.Checked) :
    Draws ([x.node] ++ v.nodes) (building (Build.assign (operand x) (.filled v)))
      Expr.nodes Expr.Checked := by
  refine .building fun s e s' h => ?_
  cases v <;> simp [Build.assign, Build.asIdentifier, Build.asExpr, operand] at h
  obtain ⟨rfl, rfl⟩ := h
  exact ⟨rfl, ⟨hx, hv⟩, _, rfl, rfl, describable_expr rfl⟩

theorem draws_addAssign {x : Identifier} {v : Node} (hx : x.Checked)
    (hv : v.Checked) :
    Draws ([x.node] ++ v.nodes) (building (Build.addAssign (operand x) (.filled v)))
      Expr.nodes Expr.Checked := by
  refine .building fun s e s' h => ?_
  cases v <;> simp [Build.addAssign, Build.asIdentifier, Build.asExpr, operand] at h
  obtain ⟨rfl, rfl⟩ := h
  exact ⟨rfl, ⟨hx, hv⟩, _, rfl, rfl, describable_expr rfl⟩

/-- An increment draws its node after its name. -/
theorem draws_increment {x : Identifier} (hx : x.Checked) :
    Draws [x.node] (building (Build.increment (operand x))) Expr.nodes Expr.Checked := by
  refine .building fun s e s' h => ?_
  simp [Build.increment, Build.asIdentifier, operand] at h
  obtain ⟨rfl, rfl⟩ := h
  exact ⟨rfl, hx, _, rfl, rfl, describable_expr rfl⟩

/-- Nodes that are all taken as expressions are expressions. -/
theorem mapM_asExpr_eq_ok {role : Role} {ms : List Node} {es : List Expr}
    (h : (ms.map Slot.filled).mapM (Build.asExpr role) = .ok es) : ms = es.map Node.expr := by
  induction ms generalizing es with
  | nil =>
    cases h
    rfl
  | cons m ms ih =>
    rw [List.map_cons, List.mapM_cons] at h
    simp only [bind_eq_ok_iff] at h
    obtain ⟨e, he, es', hes, h⟩ := h
    cases h
    cases m with
    | stmt st => cases he
    | expr e' =>
      cases he
      rw [ih hes, List.map_cons]

/-- A call draws its node after its name and its arguments. -/
theorem draws_invoke {f : Identifier} {args : List Node} (hf : f.Checked)
    (hargs : ∀ a ∈ args, a.Checked) :
    Draws ([f.node] ++ args.flatMap Node.nodes)
      (building (Build.invoke (operand f) (args.map .filled))) Expr.nodes Expr.Checked := by
  refine .building fun s e s' h => ?_
  cases hes : (args.map Slot.filled).mapM (Build.asExpr .argument) with
  | error err => simp [Build.invoke, Build.asIdentifier, operand, hes] at h
  | ok es =>
    simp [Build.invoke, Build.asIdentifier, operand, hes] at h
    obtain rfl := mapM_asExpr_eq_ok hes
    obtain ⟨rfl, rfl⟩ := h
    refine ⟨rfl, ⟨hf, ?_⟩, .expr (.invoke s.node f es), ?_, rfl, describable_expr rfl⟩
    · exact Expr.allChecked_iff.2 fun e he => hargs _ (List.mem_map_of_mem he)
    · rw [Expr.nodes, Expr.listNodes_eq_flatMap, List.flatMap_map]
      rfl

/-- An expression statement draws its node after its expression. -/
theorem draws_expression {v : Node} (hv : v.Checked) :
    Draws v.nodes (building (Build.expression (.filled v))) Stmt.nodes Stmt.Checked := by
  refine .building fun s st s' h => ?_
  cases v <;> simp [Build.expression, Build.asOptional, Build.asExpr, Except.map] at h
  obtain ⟨rfl, rfl⟩ := h
  exact ⟨rfl, hv, _, rfl, rfl, describable_stmt rfl⟩

/-- An empty statement draws its node alone. -/
theorem draws_nop : Draws [] (do return .stmt (← Build.nop)) Node.nodes Node.Checked := by
  intro k s m s' hm hb
  cases hb
  exact ⟨hm.cover rfl (describable_stmt rfl), trivial⟩

/-- A declaration draws its node after its name and its initial value. -/
theorem draws_declaration (t : Datatype) {x : Identifier} {v : Node}
    (hx : x.Checked) (hv : v.Checked) :
    Draws ([x.node] ++ v.nodes) (building (Build.declaration t (operand x) (.filled v)))
      Stmt.nodes Stmt.Checked := by
  refine .building fun s st s' h => ?_
  cases ht : t.declarable <;> cases v <;>
    simp [Build.declaration, Build.asIdentifier, operand, Build.asOptional, Build.asExpr,
      Except.map, ht] at h
  obtain ⟨rfl, rfl⟩ := h
  exact ⟨rfl, ⟨ht, hx, hv⟩, _, rfl, rfl, describable_stmt rfl⟩

theorem draws_declaration_none (t : Datatype) {x : Identifier} (hx : x.Checked) :
    Draws [x.node] (building (Build.declaration t (operand x) .empty))
      Stmt.nodes Stmt.Checked := by
  refine .building fun s st s' h => ?_
  cases ht : t.declarable <;>
    simp [Build.declaration, Build.asIdentifier, operand, Build.asOptional, ht] at h
  obtain ⟨rfl, rfl⟩ := h
  exact ⟨rfl, ⟨ht, hx, trivial⟩, _, rfl, rfl, describable_stmt rfl⟩

/-- A block draws its node after its statements. -/
theorem draws_block {ss : List Stmt} (hss : Stmt.AllChecked ss) :
    Draws (Stmt.listNodes ss)
      (building (Build.block (ss.map fun s => .filled (.stmt s))))
      Stmt.nodes Stmt.Checked := by
  refine .building fun s st s' h => ?_
  cases (Build.block_apply ss s).symm.trans h
  exact ⟨rfl, hss, _, rfl, rfl, describable_stmt rfl⟩

/-- A conditional statement draws its node after its condition and its body. -/
theorem draws_ifThen {c b : Node} (hc : c.Checked) (hb : b.Checked) :
    Draws (c.nodes ++ b.nodes) (building (Build.ifThen (.filled c) (.filled b)))
      Stmt.nodes Stmt.Checked := by
  refine .building fun s st s' h => ?_
  cases c <;> cases b <;> simp [Build.ifThen, Build.asExpr, Build.asStmt] at h
  obtain ⟨rfl, rfl⟩ := h
  exact ⟨rfl, ⟨hc, hb⟩, _, rfl, rfl, describable_stmt rfl⟩

/-- A loop draws its node after its four parts. -/
theorem draws_forLoop {i c u b : Node} (hi : i.Checked) (hc : c.Checked)
    (hu : u.Checked) (hb : b.Checked) :
    Draws (i.nodes ++ c.nodes ++ u.nodes ++ b.nodes)
      (building (Build.forLoop (.filled i) (.filled c) (.filled u) (.filled b)))
      Stmt.nodes Stmt.Checked := by
  rw [List.append_assoc, List.append_assoc]
  refine .building fun s st s' h => ?_
  cases i <;> cases c <;> cases u <;> cases b <;> simp [Build.forLoop, Build.asStmt] at h
  obtain ⟨rfl, rfl⟩ := h
  exact ⟨rfl, ⟨hi, hc, hu, hb⟩, _, rfl, rfl, describable_stmt rfl⟩

/-- The node of what a builder gives. -/
theorem Draws.expr {before : List Node} {d : Decode Expr}
    (h : Draws before d Expr.nodes Expr.Checked) :
    Draws before (do return .expr (← d)) Node.nodes Node.Checked :=
  h.bind fun _ he => .pure rfl he

/-- A decoder of statements is a decoder of nodes. -/
theorem Draws.stmt {before : List Node} {d : Decode Stmt}
    (h : Draws before d Stmt.nodes Stmt.Checked) :
    Draws before (do return .stmt (← d)) Node.nodes Node.Checked :=
  h.bind fun _ hst => .pure rfl hst

/-- A part that must be present draws what reading it draws. -/
theorem Draws.required {parent : Yaml.Node} {key : String} {part : Option (Decode Node)}
    {before : List Node} (h : ∀ read, part = some read → Draws [] read Node.nodes Node.Checked) :
    Draws before (required parent key part) (fun m => before ++ m.nodes) Node.Checked := by
  cases part with
  | none => exact .fail _ _
  | some read => exact (h read rfl).frame before

variable (toInt : Yaml.IntReader)

mutual

/-- Decoding a node draws the nodes of what it gives, which is checked. -/
theorem draws_node (n : Yaml.Node) : Draws [] (node toInt n) Node.nodes Node.Checked := by
  cases n with
  | mapping line tag content =>
    rcases content with - | ⟨k, - | ⟨body, - | ⟨extra, rest⟩⟩⟩
    · exact .fail _ _
    · exact .fail _ _
    · unfold node
      refine .locating ?_ line
      generalize k.text = kind
      split
      · refine .bind (draws_scalar _ body) fun s _ => ?_
        exact .bind (draws_identifier s) fun i hi => .pure rfl hi
      · split
        · exact draws_literal rfl
        · exact .fail _ _
      · refine .bind (draws_scalar _ body) fun s _ => draws_literal rfl
      · exact draws_literal rfl
      · exact draws_pair .and "and" body
      · exact draws_pair .le "le" body
      · exact draws_pair .eq "eq" body
      · cases body with
        | mapping _ _ content =>
          refine .bind (draws_name _ content) fun x hx => ?_
          refine .bind (.required fun read => draws_part? "value" content) fun v hv => ?_
          exact .expr (draws_assign hx hv)
        | _ => exact .fail _ _
      · cases body with
        | mapping _ _ content =>
          refine .bind (draws_name _ content) fun x hx => ?_
          refine .bind (.required fun read => draws_part? "value" content) fun v hv => ?_
          exact .expr (draws_addAssign hx hv)
        | _ => exact .fail _ _
      · refine .bind (draws_scalar _ body) fun s _ => ?_
        refine .bind (draws_identifier s) fun x hx => ?_
        exact .expr (draws_increment hx)
      · cases body with
        | mapping _ _ content =>
          refine .bind (draws_name _ content) fun f hf => ?_
          refine .bind ((draws_arguments content).frame _) fun args hargs => ?_
          exact .expr (draws_invoke hf hargs)
        | _ => exact .fail _ _
      · exact .bind (draws_node body) fun v hv => .stmt (draws_expression hv)
      · exact draws_nop
      · cases body with
        | mapping _ _ content =>
          refine .bind (draws_datatype _ content) fun t _ => ?_
          refine .bind (draws_name _ content) fun x hx => ?_
          cases hread : part? toInt "value" content with
          | none => exact .stmt (draws_declaration_none t hx)
          | some read =>
            simp only [pure_bind]
            refine .bind ((draws_part? "value" content hread).frame _) fun v hv => ?_
            exact .stmt (draws_declaration t hx hv)
        | _ => exact .fail _ _
      · cases body with
        | sequence _ _ items =>
          exact .bind (draws_statementsOf items) fun ss hss => .stmt (draws_block hss)
        | _ => exact .fail _ _
      · cases body with
        | mapping _ _ content =>
          refine .bind (.required fun read => draws_part? "cond" content) fun c hc => ?_
          refine .bind (.required fun read => draws_part? "body" content) fun b hb => ?_
          exact .stmt (draws_ifThen hc hb)
        | _ => exact .fail _ _
      · cases body with
        | mapping _ _ content =>
          refine .bind (.required fun read => draws_part? "init" content) fun i hi => ?_
          refine .bind (.required fun read => draws_part? "cond" content) fun c hc => ?_
          refine .bind (.required fun read => draws_part? "update" content) fun u hu => ?_
          refine .bind (.required fun read => draws_part? "body" content) fun b hb => ?_
          exact .stmt (draws_forLoop hi hc hu hb)
        | _ => exact .fail _ _
      · exact .fail _ _
    · exact .fail _ _
  | _ => exact .fail _ _

/-- Decoding a pair of operands draws the nodes of the operation. -/
theorem draws_pair (op : BinaryOp) (kind : String) (n : Yaml.Node) :
    Draws [] (pair toInt op kind n) Node.nodes Node.Checked := by
  cases n with
  | sequence _ _ items =>
    rcases items with - | ⟨l, - | ⟨r, - | ⟨extra, rest⟩⟩⟩
    · exact .fail _ _
    · exact .fail _ _
    · refine .bind (draws_node l) fun l' hl => ?_
      refine .bind ((draws_node r).frame _) fun r' hr => ?_
      exact .expr (draws_binary op hl hr)
    · exact .fail _ _
  | _ => exact .fail _ _

/-- Decoding the part under a key draws the nodes of that part. -/
theorem draws_part? (key : String) (content : List Yaml.Node) {read : Decode Node}
    (h : part? toInt key content = some read) : Draws [] read Node.nodes Node.Checked := by
  rcases content with - | ⟨k, - | ⟨v, rest⟩⟩
  · cases h
  · cases h
  · rw [part?] at h
    split at h
    · rename_i read' hrest
      cases h
      exact draws_part? key rest hrest
    · split at h
      · cases h
        exact draws_node v
      · cases h

/-- Decoding the arguments of a call draws their nodes, if there are any. -/
theorem draws_arguments (content : List Yaml.Node) :
    Draws [] ((arguments toInt content).getD (pure [])) (List.flatMap Node.nodes)
      (fun args => ∀ a ∈ args, a.Checked) := by
  rcases content with - | ⟨k, - | ⟨v, rest⟩⟩
  · exact .pure rfl (by simp)
  · exact .pure rfl (by simp)
  · have hrest := draws_arguments rest
    rw [arguments]
    split
    · rename_i read heq
      rw [heq] at hrest
      exact hrest
    · split
      · exact draws_argumentList v
      · exact .pure rfl (by simp)

theorem draws_argumentList (n : Yaml.Node) :
    Draws [] (argumentList toInt n) (List.flatMap Node.nodes)
      (fun args => ∀ a ∈ args, a.Checked) := by
  cases n with
  | sequence _ _ items => exact draws_nodes items
  | _ => exact .fail _ _

theorem draws_nodes (items : List Yaml.Node) :
    Draws [] (nodes toInt items) (List.flatMap Node.nodes) (fun args => ∀ a ∈ args, a.Checked) := by
  cases items with
  | nil => exact .pure rfl (by simp)
  | cons n ns =>
    refine .bind (draws_node n) fun m hm => ?_
    refine .bind ((draws_nodes ns).frame _) fun ms hms => .pure rfl ?_
    exact List.forall_mem_cons.2 ⟨hm, hms⟩

/-- Decoding statements in turn draws the nodes of all of them. -/
theorem draws_statementsOf (items : List Yaml.Node) :
    Draws [] (statementsOf toInt items) Stmt.listNodes Stmt.AllChecked := by
  cases items with
  | nil => exact .pure rfl trivial
  | cons n ns =>
    refine .bind (draws_node n) fun m hm => ?_
    cases m with
    | expr e => exact .throw _
    | stmt st =>
      exact .bind ((draws_statementsOf ns).frame _) fun ss hss => .pure rfl ⟨hm, hss⟩

end

end Decode

/-! ## Well-formed programs -/

/-- Every node of a checked expression is checked. -/
theorem Expr.Checked.of_mem_nodes {e : Expr} (he : e.Checked) {n : Node} (hn : n ∈ e.nodes) :
    n.Checked := by
  induction e using Expr.induct with
  | identifier x =>
    cases List.mem_singleton.1 hn
    exact he
  | constant c =>
    cases List.mem_singleton.1 hn
    exact he
  | binary id op l r ihl ihr =>
    simp only [Expr.nodes, List.mem_cons, List.mem_append] at hn
    rcases hn with rfl | hn | hn
    · exact he
    · exact ihl he.2.1 hn
    · exact ihr he.2.2 hn
  | assign id x v ih | addAssign id x v ih =>
    simp only [Expr.nodes, List.mem_cons] at hn
    rcases hn with rfl | rfl | hn
    · exact he
    · exact he.1
    · exact ih he.2 hn
  | increment id x =>
    simp only [Expr.nodes, List.mem_cons, List.not_mem_nil, or_false] at hn
    rcases hn with rfl | rfl
    · exact he
    · exact he
  | invoke id f args ih =>
    simp only [Expr.nodes, List.mem_cons, Expr.listNodes_eq_flatMap, List.mem_flatMap] at hn
    rcases hn with rfl | rfl | ⟨e, hmem, hn⟩
    · exact he
    · exact he.1
    · exact ih e hmem (Expr.allChecked_iff.1 he.2 e hmem) hn
  | hole v => cases hn

theorem Expr.OptionChecked.of_mem_optionNodes {v : Option Expr} (hv : Expr.OptionChecked v)
    {n : Node} (hn : n ∈ Expr.optionNodes v) : n.Checked := by
  cases v with
  | none => cases hn
  | some e => exact Expr.Checked.of_mem_nodes hv hn

/-- Every node of a checked statement is checked. -/
theorem Stmt.Checked.of_mem_nodes {st : Stmt} (hst : st.Checked) {n : Node} (hn : n ∈ st.nodes) :
    n.Checked := by
  induction st using Stmt.induct with
  | expression id v =>
    simp only [Stmt.nodes, List.mem_cons] at hn
    rcases hn with rfl | hn
    · exact hst
    · exact Expr.OptionChecked.of_mem_optionNodes hst hn
  | declaration id t x v =>
    simp only [Stmt.nodes, List.mem_cons] at hn
    rcases hn with rfl | rfl | hn
    · exact hst
    · exact hst.2.1
    · exact hst.2.2.of_mem_optionNodes hn
  | block id ss ih =>
    simp only [Stmt.nodes, List.mem_cons, Stmt.listNodes_eq_flatMap, List.mem_flatMap] at hn
    rcases hn with rfl | ⟨st, hmem, hn⟩
    · exact hst
    · exact ih st hmem (Stmt.allChecked_iff.1 hst st hmem) hn
  | forLoop id i c u b ihi ihc ihu ihb =>
    simp only [Stmt.nodes, List.mem_cons, List.mem_append] at hn
    rcases hn with rfl | hn | hn | hn | hn
    · exact hst
    · exact ihi hst.1 hn
    · exact ihc hst.2.1 hn
    · exact ihu hst.2.2.1 hn
    · exact ihb hst.2.2.2 hn
  | ifThen id c b ih =>
    simp only [Stmt.nodes, List.mem_cons, List.mem_append] at hn
    rcases hn with rfl | hn | hn
    · exact hst
    · exact hst.1.of_mem_nodes hn
    · exact ih hst.2 hn
  | condJump id c t f o ih =>
    simp only [Stmt.nodes, List.mem_cons] at hn
    rcases hn with rfl | hn
    · exact hst
    · exact hst.1.of_mem_nodes hn
  | label l =>
    cases List.mem_singleton.1 hn
    exact hst
  | jump id l =>
    cases List.mem_singleton.1 hn
    exact hst
  | undeclaration id x =>
    simp only [Stmt.nodes, List.mem_cons, List.not_mem_nil, or_false] at hn
    rcases hn with rfl | rfl
    · exact hst
    · exact hst

/-- A program that is a tree of source statements: no node occurs twice, no name is empty,
operators belong to the language and have both operands, and declarations and constants have
a type that can be declared. -/
structure WellFormed (ss : List Stmt) : Prop where
  distinct : ((Stmt.listNodes ss).map Node.id).Nodup
  source : ∀ st, Node.stmt st ∈ Stmt.listNodes ss → st.isSource = true
  named : ∀ x, Node.expr (.identifier x) ∈ Stmt.listNodes ss → x.name ≠ ""
  binary : ∀ id op l r, Node.expr (.binary id op l r) ∈ Stmt.listNodes ss →
    op ∈ [.and, .le, .eq] ∧ ∀ v, l ≠ .hole v ∧ r ≠ .hole v
  declared : ∀ id t x v, Node.stmt (.declaration id t x v) ∈ Stmt.listNodes ss →
    t ∈ [.int, .string]
  constants : ∀ c, Node.expr (.constant c) ∈ Stmt.listNodes ss →
    c.value.datatype ∈ [.int, .string]

/-- The types that can be declared are those of integers and of strings. -/
theorem Datatype.declarable_iff {t : Datatype} : t.declarable = true ↔ t ∈ [.int, .string] := by
  cases t <;> simp [Datatype.declarable]

/-- The known operators are conjunction, comparison and equality. -/
theorem BinaryOp.known_iff {op : BinaryOp} : op.known = true ↔ op ∈ [.and, .le, .eq] := by
  cases op <;> simp [BinaryOp.known]

/-- A program whose nodes can all be described is well-formed. -/
theorem Source.wellFormed {ss : List Stmt} {s : Supply} (h : Source ss s)
    (hd : Describable (Stmt.listNodes ss)) : WellFormed ss := by
  have hnode : ∀ n ∈ Stmt.listNodes ss, n.Checked := by
    intro n hn
    rw [Stmt.listNodes_eq_flatMap, List.mem_flatMap] at hn
    obtain ⟨st, hst, hn⟩ := hn
    exact (Stmt.allChecked_iff.1 h.checked st hst).of_mem_nodes hn
  constructor
  case distinct => exact h.nodup
  case source => exact hd.source
  case named =>
    intro x hx
    exact hnode _ hx
  case binary =>
    intro id op l r hmem
    obtain ⟨hop, hl, hr⟩ : op.known = true ∧ l.Checked ∧ r.Checked := hnode _ hmem
    exact ⟨BinaryOp.known_iff.1 hop, fun v => ⟨hl.ne_hole v, hr.ne_hole v⟩⟩
  case declared =>
    intro id t x v hmem
    have hst : (Stmt.declaration id t x v).Checked := hnode _ hmem
    exact Datatype.declarable_iff.1 hst.1
  case constants =>
    intro c hc
    exact Datatype.declarable_iff.1 (hd.constants c hc)

/-- Decoded statements form a program as checked builders make it, all of whose nodes can
be described. -/
theorem Decode.source_of_statements {toInt : Yaml.IntReader} {n : Yaml.Node} {s s' : Supply}
    {ss : List Stmt} (h : Decode.statements toInt n s = .ok (ss, s')) :
    Source ss s' ∧ Describable (Stmt.listNodes ss) := by
  cases n with
  | sequence line tag items =>
    obtain ⟨hm, hss⟩ := draws_statementsOf toInt items (.nil s.node) h
    exact ⟨⟨hss, hm.nodup, fun k hk => (hm.mem k hk).2⟩, hm.describable⟩
  | _ => cases h

/-- Whatever tree of nodes is decoded, the result is well formed; and it can be lowered
exactly if the condition of every loop in it is an expression statement, and is refused as
unsupported otherwise. -/
theorem decoded_wellFormed {toInt : Yaml.IntReader} {n : Yaml.Node} {s s' : Supply}
    {ss : List Stmt} (h : Decode.statements toInt n s = .ok (ss, s')) :
    WellFormed ss ∧ Source ss s' ∧ ∀ start : Supply,
      ((∃ r, lower (ss.map .filled) start = .ok r) ↔
        ∀ id i c u b, Node.stmt (.forLoop id i c u b) ∈ Stmt.listNodes ss → c.IsExpression) ∧
      ∀ e, lower (ss.map .filled) start = .error e → e.errorClass = .unsupportedNode := by
  obtain ⟨hsource, hd⟩ := Decode.source_of_statements h
  refine ⟨hsource.wellFormed hd, hsource, fun start => ?_⟩
  rw [lower_filled]
  have hdecided := Stmt.lowerAll_decided hsource.checked
  refine ⟨?_, fun e he => hdecided.errorClass he⟩
  rw [hdecided.exists_ok_iff, Stmt.allLowerable_iff hd.source, Node.forall_tested_iff]

/-- A description with an alias for a number, a key given twice, an unknown key, a key without
a value, nodes of kinds that no text has and a loop whose condition is a block. -/
def crookedNode : Yaml.Node :=
  let nop := Encode.node "nop" (.document 0 [])
  let seven := Yaml.Node.reference 0 "n" false (Encode.number 7)
  let x := Encode.node "ident" (Encode.text "x")
  Encode.list
    [Encode.node "declare" (.mapping 0 "" [Encode.text "type", Encode.text "char*",
        Encode.text "type", Encode.text "int", Encode.text "name", Encode.text "x",
        Encode.text "color", .other 0 0 "" "" [seven], Encode.text "value", Encode.node "int" seven,
        Encode.text "odd"]),
      Encode.node "for" (Encode.mapping [("init", nop), ("update", nop),
        ("cond", Encode.node "block" (Encode.list [])),
        ("body", Encode.node "expr" (Encode.node "le" (Encode.list [x, x])))])]

/-- The program `int x = 7; for (; {}; ) x <= x;` that it describes. -/
def crookedProgram : List Stmt :=
  [.declaration 3 .int ⟨1, "x"⟩ (some (.constant ⟨2, .int 7⟩)),
    .forLoop 11 (.expression 4 none) (.block 5 []) (.expression 6 none)
      (.expression 10 (some (.binary 9 .le (.identifier ⟨7, "x"⟩) (.identifier ⟨8, "x"⟩))))]

/-- The program decodes and is well-formed, but its loop cannot be lowered. -/
theorem decoded_wellFormed_crookedNode :
    Decode.statements Yaml.Node.readInt crookedNode .initial = .ok (crookedProgram, ⟨12, 0⟩) ∧
      WellFormed crookedProgram ∧
      ∃ e, lower (crookedProgram.map .filled) ⟨12, 0⟩ = .error e ∧
        e.errorClass = .unsupportedNode := by
  have h : Decode.statements Yaml.Node.readInt crookedNode .initial =
      .ok (crookedProgram, ⟨12, 0⟩) := by
    rfl
  obtain ⟨hwell, -, hlower⟩ := decoded_wellFormed h
  refine ⟨h, hwell, ?_⟩
  obtain ⟨hiff, herror⟩ := hlower ⟨12, 0⟩
  cases hresult : lower (crookedProgram.map .filled) ⟨12, 0⟩ with
  | error e => exact ⟨e, rfl, herror e hresult⟩
  | ok r =>
    exact (hiff.1 ⟨r, hresult⟩ _ _ _ _ _ (List.mem_of_getElem? (i := 3) rfl)).elim

end Stepwise
