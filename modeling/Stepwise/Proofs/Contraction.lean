import Stepwise.Proofs.Shape
import Stepwise.Proofs.Views

/-!
# Proofs - Reducing contracts the redex

Three functions go down into an expression on their own: one reduces it, one finds
the part to be reduced, and one puts a node in the place of another.  They agree.  A
reduction gives what the replacement of the redex by its own result gives, everything
above the redex is built anew and everything beside the way to it is kept.

Main results:

- `Expr.Reduces.contracts`: a reduction replaces the redex by a constant.
- `Expr.Contracts.replace?_eq`: so does a replacement.
- `State.step_cases`: a step contracts the active statement or discards it.
- `redex_contracted`: reducing, searching, replacing and stepping agree.
-/

namespace Stepwise

/-! ## Places in a tree -/

/-- The node at the end of a path of child numbers. -/
def Node.at? : Node → List Nat → Option Node
  | n, [] => some n
  | n, i :: path =>
    match n.children[i]? with
    | some m => m.at? path
    | none => none

/-- Two paths of which neither leads through the end of the other. -/
def Beside (path other : List Nat) : Prop :=
  ¬ path <+: other ∧ ¬ other <+: path

/-- A node with its identities forgotten. -/
def Node.shape : Node → Node
  | .expr e => .expr e.shape
  | .stmt s => .stmt s.shape

section Places

variable {n n' m m' : Node} {front back : List Node} {path : List Nat}

/-- A path into a child. -/
theorem Node.at?_child (h : n.children = front ++ m :: back) (path : List Nat) :
    n.at? (front.length :: path) = m.at? path := by
  simp [Node.at?, h]

/-- What stands beside a path into a child is kept, if the other children are kept and so
is what stands beside the path in the child. -/
theorem Node.at?_beside (h : n.children = front ++ m :: back)
    (h' : n'.children = front ++ m' :: back)
    (hkept : ∀ other, Beside path other → m'.at? other = m.at? other) :
    ∀ other, Beside (front.length :: path) other → n'.at? other = n.at? other := by
  intro other hother
  cases other with
  | nil => exact absurd List.nil_prefix hother.2
  | cons j rest =>
    by_cases hj : j = front.length
    · subst hj
      rw [Node.at?_child h, Node.at?_child h']
      refine hkept rest ?_
      simpa [Beside, List.cons_prefix_cons] using hother
    · have hchild : (front ++ m' :: back)[j]? = (front ++ m :: back)[j]? := by
        rcases Nat.lt_or_ge j front.length with hlt | hge
        · rw [List.getElem?_append_left hlt, List.getElem?_append_left hlt]
        · obtain ⟨k, hk⟩ : ∃ k, j - front.length = k + 1 := ⟨j - front.length - 1, by omega⟩
          rw [List.getElem?_append_right hge, List.getElem?_append_right hge, hk]
          rfl
      simp only [Node.at?, h, h', hchild]

end Places

/-! ## Layers of an expression -/

namespace Expr

/-- What stands around the operand that is reduced in an expression. -/
inductive Layer where
  | left (op : BinaryOp) (r : Expr)
  | right (op : BinaryOp) (a : Constant)
  | assigned (x : Identifier)
  | added (x : Identifier)
  | argument (f : Identifier) (done rest : List Expr)

/-- A checked expression is a child where it stands. -/
theorem node?_of_checked {e : Expr} (h : e.Checked) : e.node? = some (.expr e) := by
  cases e with
  | hole v => exact absurd h (by simp)
  | _ => rfl

namespace Layer

/-- The expression with an operand put into its layer. -/
def fill (layer : Layer) (id : NodeId) (e : Expr) : Expr :=
  match layer with
  | left op r => .binary id op e r
  | right op a => .binary id op (.constant a) e
  | assigned x => .assign id x e
  | added x => .addAssign id x e
  | argument f done rest => .invoke id f (done ++ e :: rest)

/-- The children before the operand. -/
def front : Layer → List Node
  | left .. => []
  | right _ a => [.expr (.constant a)]
  | assigned x => [x.node]
  | added x => [x.node]
  | argument f done _ => f.node :: done.map .expr

/-- The children after the operand. -/
def back : Layer → List Node
  | left _ r => r.node?.toList
  | argument _ _ rest => rest.map .expr
  | _ => []

/-- The identities of what stands around the operand. -/
def ids : Layer → List Nat
  | left _ r => r.ids
  | right _ a => [a.id]
  | assigned x => [x.id]
  | added x => [x.id]
  | argument f done rest => f.id :: (done.flatMap Expr.ids ++ rest.flatMap Expr.ids)

/-- What stands around an operand as checked builders produce it. -/
def Checked : Layer → Prop
  | left op r => op.known = true ∧ r.Checked
  | right op _ => op.known = true
  | assigned x => x.Checked
  | added x => x.Checked
  | argument f done rest => f.Checked ∧ AllChecked done ∧ AllChecked rest

variable {layer : Layer} {id id' target : NodeId} {e e' : Expr} {repl : Operand}
  {s s' : Supply}

/-- A filled layer is checked when the layer and what fills it are. -/
theorem checked_fill : (layer.fill id e).Checked ↔ layer.Checked ∧ e.Checked := by
  cases layer with
  | argument f done rest =>
    simp only [fill, Checked, Expr.Checked, allChecked_iff, List.mem_append, List.mem_cons]
    grind
  | _ => simp [fill, Checked] <;> tauto

/-- The identities of an expression are those of an operand and of what stands around
it. -/
theorem ids_fill (layer : Layer) (id : NodeId) (e : Expr) :
    (layer.fill id e).ids.Perm (e.ids ++ id :: layer.ids) := by
  rw [List.perm_iff_count]
  intro k
  cases layer <;> simp [fill, ids, List.count_cons] <;> omega

/-- Operands that differ in identities only give expressions that differ so. -/
theorem shape_fill (layer : Layer) (id id' : NodeId) (h : e.shape = e'.shape) :
    (layer.fill id e).shape = (layer.fill id' e').shape := by
  cases layer <;> simp [fill, h, shapes_eq_map]

/-- The children of a filled layer are those around the place and what fills it. -/
theorem children_fill (layer : Layer) (id : NodeId) (he : e.Checked) :
    (Node.expr (layer.fill id e)).children = layer.front ++ .expr e :: layer.back := by
  have hnode := node?_of_checked he
  cases layer with
  | left op r => simp [fill, front, back, Node.children, hnode]
  | right op a =>
    have ha : (constant a).node? = some (.expr (.constant a)) := rfl
    simp [fill, front, back, Node.children, hnode, ha]
  | assigned x => rfl
  | added x => rfl
  | argument f done rest => simp [fill, front, back, Node.children]

/-- Replacing in the first of a list of arguments that holds the target. -/
private theorem replaceList?_argument {done : List Expr} (rest : List Expr)
    (hdone : AllChecked done) (habs : target ∉ done.flatMap Expr.ids)
    (h : e.replace? target repl s = .ok (some (.filled (.expr e')), s')) :
    replaceList? target repl (done ++ e :: rest) s =
      .ok (some (done.map .expr ++ .filled (.expr e') :: rest.map .expr), s') := by
  induction done with
  | nil => simp [replaceList?, h]
  | cons a done ih =>
    simp only [List.flatMap_cons, List.mem_append, not_or] at habs
    simp [replaceList?, replace?_absent hdone.1 habs.1, ih hdone.2 habs.2]

/-- An expression that was built as the outcome of a replacement. -/
private theorem replacedExpr_apply {x : Build NodeError Expr} (h : x s = .ok (e, s')) :
    (do return some (Operand.expr (← x)) : Build NodeError (Option Operand)) s =
      .ok (some (.expr e), s') := by
  simp [h]

/-- A node that is replaced in an operand and does not stand around it. -/
theorem replace?_fill (hlayer : layer.Checked) (hid : id ≠ target) (habs : target ∉ layer.ids)
    (h : e.replace? target repl s = .ok (some (.filled (.expr e')), s')) :
    (layer.fill id e).replace? target repl s =
      .ok (some (.filled (.expr (layer.fill s'.node e'))), s'.next) := by
  cases layer with
  | left op r =>
    simp only [fill, replace?, Expr.id, hid, ↓reduceIte, Build.bind_apply, h]
    rw [Operand.expr_of_checked hlayer.2]
    exact replacedExpr_apply (Build.binary_apply hlayer.1 e' r s')
  | right op a =>
    have ha : (constant a).replace? target repl s = .ok (none, s) :=
      replace?_absent (by simp) (by simpa [ids] using habs)
    rw [fill, replace?]
    simp only [Expr.id, hid, ↓reduceIte, Build.bind_apply, ha, h]
    exact replacedExpr_apply (Build.binary_apply hlayer (.constant a) e' s')
  | assigned x =>
    have hx : x.id ≠ target := fun hk => habs (by simp [ids, hk])
    simp only [fill, replace?, Expr.id, hid, hx, ↓reduceIte, Build.bind_apply, h]
    exact replacedExpr_apply (Build.assign_apply x e' s')
  | added x =>
    have hx : x.id ≠ target := fun hk => habs (by simp [ids, hk])
    simp only [fill, replace?, Expr.id, hid, hx, ↓reduceIte, Build.bind_apply, h]
    exact replacedExpr_apply (Build.addAssign_apply x e' s')
  | argument f done rest =>
    simp only [ids, List.mem_cons, List.mem_append, not_or] at habs
    have hargs := replaceList?_argument rest hlayer.2.1 habs.2.1 h
    rw [Operand.map_expr_of_checked hlayer.2.1, Operand.map_expr_of_checked hlayer.2.2] at hargs
    simp only [fill, replace?, Expr.id, hid, Ne.symm habs.1, ↓reduceIte, Build.bind_apply, hargs]
    have hbuild := Build.invoke_apply f (done ++ e' :: rest) s'
    rw [List.map_append, List.map_cons] at hbuild
    exact replacedExpr_apply hbuild

end Layer

/-! ## Contracting the redex -/

/-- The left operand alone decides where it makes a conjunction false. -/
theorem decided_eq_true_iff {op : BinaryOp} {v : Value} :
    op.decided v = .ok true ↔ op = .and ∧ v.truthy? = some false := by
  cases op with
  | and =>
    unfold BinaryOp.decided Value.truth
    cases v.truthy? with
    | none => simp [bind, Except.bind]
    | some b => simp [bind, Except.bind, pure, Except.pure]
  | _ => simp [BinaryOp.decided]

/-- An expression with the part `r` of it, at the end of a path, replaced by a constant.
Everything above that part is built anew, from the inside out. -/
inductive Contracts (r : Expr) (c : Constant) :
    List Nat → Expr → Supply → Expr → Supply → Prop
  | here (s : Supply) : Contracts r c [] r s (.constant c) s
  | inside {path : List Nat} {e e' : Expr} {s s' : Supply} (layer : Layer) (id : NodeId) :
      Contracts r c path e s e' s' →
      Contracts r c (layer.front.length :: path) (layer.fill id e) s (layer.fill s'.node e') s'.next

section Contracts

variable {r e e' : Expr} {c : Constant} {path : List Nat} {env : Env} {s s' : Supply}
  {x : Reduction}

/-- A reduction replaces the redex by the constant that the redex itself reduces to. -/
theorem Reduces.contracts (h : Reduces env e s x s') :
    ∃ c s₁ path, Reduces env e.redex s ⟨.constant c, x.env, x.output⟩ s₁ ∧
      Contracts e.redex c path e s₁ x.expr s' := by
  have whole : ∀ {e : Expr} {s s' : Supply} {c : Constant} {env' : Env} {out : String},
      e.redex = e → Reduces env e s ⟨.constant c, env', out⟩ s' →
      ∃ c₁ s₁ path, Reduces env e.redex s ⟨.constant c₁, env', out⟩ s₁ ∧
        Contracts e.redex c₁ path e s₁ (.constant c) s' := by
    intro e s s' c env' out hself h
    rw [hself]
    exact ⟨c, s', [], h, .here s'⟩
  have part : ∀ {e : Expr} {s s' : Supply} {x : Reduction} (layer : Layer) (id : NodeId),
      (layer.fill id e).redex = e.redex →
      (∃ c s₁ path, Reduces env e.redex s ⟨.constant c, x.env, x.output⟩ s₁ ∧
        Contracts e.redex c path e s₁ x.expr s') →
      ∃ c s₁ path, Reduces env (layer.fill id e).redex s ⟨.constant c, x.env, x.output⟩ s₁ ∧
        Contracts (layer.fill id e).redex c path (layer.fill id e) s₁
          (layer.fill s'.node x.expr) s'.next := by
    intro e s s' x layer id hredex hpart
    obtain ⟨c, s₁, path, hred, hcontr⟩ := hpart
    rw [hredex]
    exact ⟨c, s₁, _, hred, .inside layer id hcontr⟩
  induction h with
  | read hfind => exact whole rfl (.read hfind)
  | @left id op l r s s' x hl h ih =>
    exact part (.left op r) id (by simp [Layer.fill, redex, hl]) ih
  | decided hop =>
    refine whole ?_ (.decided hop)
    simp [redex, decided_eq_true_iff.1 hop]
  | @right id op a r s s' x hop hr h ih =>
    have hnot : ¬ (op = .and ∧ a.value.truthy? = some false) := by
      rw [← decided_eq_true_iff, hop]
      simp
    exact part (.right op a) id (by simp [Layer.fill, redex, hnot, hr]) ih
  | @apply id op a b s t hop happly => exact whole (by simp [redex]) (.apply hop happly)
  | @assigned id y v s s' x hx hv h ih =>
    exact part (.assigned y) id (by simp [Layer.fill, redex, hv]) ih
  | assign hx hstore => exact whole (by simp [redex]) (.assign hx hstore)
  | @added id y v b s s' x hx hv h ih =>
    exact part (.added y) id (by simp [Layer.fill, redex, hv]) ih
  | add hx hm hn => exact whole (by simp [redex]) (.add hx hm hn)
  | increment hx hn => exact whole rfl (.increment hx hn)
  | @argument id f done rest e s s' x hdone he h ih =>
    exact part (.argument f done rest) id (by simp [Layer.fill, redex, redexArgs_split hdone he]) ih
  | print hargs hf htext =>
    exact whole (by simp [redex, redexArgs_settled hargs]) (.print hargs hf htext)

/-- What is replaced is among the nodes of the expression. -/
theorem Contracts.ids_subset (h : Contracts r c path e s e' s') : r.ids ⊆ e.ids := by
  induction h with
  | here => exact List.Subset.refl _
  | @inside path e e' s s' layer id h ih =>
    intro k hk
    exact (layer.ids_fill id e).mem_iff.2 (List.mem_append_left _ (ih hk))

/-- A contraction of a checked expression contracts a checked redex and gives a checked
expression. -/
theorem Contracts.checked (h : Contracts r c path e s e' s') (he : e.Checked) :
    r.Checked ∧ e'.Checked := by
  induction h with
  | here => exact ⟨he, by simp⟩
  | @inside path e e' s s' layer id h ih =>
    rw [Layer.checked_fill] at he
    have hparts := ih he.2
    exact ⟨hparts.1, Layer.checked_fill.2 ⟨he.1, hparts.2⟩⟩

/-- What is replaced stands at the end of the path. -/
theorem Contracts.at?_path (h : Contracts r c path e s e' s') (he : e.Checked) :
    (Node.expr e).at? path = some (.expr r) := by
  induction h with
  | here => rfl
  | @inside path e e' s s' layer id h ih =>
    rw [Layer.checked_fill] at he
    rw [Node.at?_child (layer.children_fill id he.2), ih he.2]

/-- What stands beside the path is kept. -/
theorem Contracts.at?_beside (h : Contracts r c path e s e' s') (he : e.Checked) :
    ∀ other, Beside path other → (Node.expr e').at? other = (Node.expr e).at? other := by
  induction h with
  | here =>
    intro other hother
    exact absurd List.nil_prefix hother.1
  | @inside path e e' s s' layer id h ih =>
    rw [Layer.checked_fill] at he
    exact Node.at?_beside (layer.children_fill id he.2)
      (layer.children_fill s'.node (h.checked he.2).2) (ih he.2)

/-- Another supply, and a constant that differs in its identity, give an expression that
differs in identities only. -/
theorem Contracts.anew (h : Contracts r c path e s e' s') {c₀ : Constant}
    (hc : c₀.value = c.value) (s₀ : Supply) :
    ∃ e₀ s₀', Contracts r c₀ path e s₀ e₀ s₀' ∧ e₀.shape = e'.shape := by
  induction h with
  | here => exact ⟨_, _, .here s₀, by simp [hc]⟩
  | @inside path e e' s s' layer id h ih =>
    obtain ⟨e₀, s₀', hcontr, hshape⟩ := ih
    exact ⟨_, _, .inside layer id hcontr, layer.shape_fill _ _ hshape⟩

/-- Replacing the redex by the constant gives the contracted expression. -/
theorem Contracts.replace?_eq (h : Contracts r c path e s e' s') (he : e.Checked)
    (hnodup : e.ids.Nodup) :
    e.replace? r.id (.filled (.expr (.constant c))) s = .ok (some (.filled (.expr e')), s') := by
  induction h with
  | here s => exact replace?_self r s
  | @inside path e e' s s' layer id h ih =>
    rw [Layer.checked_fill] at he
    have hparts := (layer.ids_fill id e).nodup_iff.1 hnodup
    have hmem : r.id ∈ e.ids :=
      h.ids_subset (List.mem_of_mem_head? (head?_ids (h.checked he.2).1))
    have haway : r.id ∉ id :: layer.ids := List.disjoint_of_nodup_append hparts hmem
    rw [List.mem_cons, not_or] at haway
    exact Layer.replace?_fill he.1 (Ne.symm haway.1) haway.2 (ih he.2 hparts.of_append_left)

/-- No identity occurs twice in the redex if none does in the expression. -/
theorem Contracts.nodup (h : Contracts r c path e s e' s') (hnodup : e.ids.Nodup) :
    r.ids.Nodup := by
  induction h with
  | here => exact hnodup
  | @inside path e e' s s' layer id h ih =>
    exact ih ((layer.ids_fill id e).nodup_iff.1 hnodup).of_append_left

/-- A constant that an expression reduces to is not the expression itself. -/
theorem Reduces.constant_id_ne (h : Reduces env e s x s') (hx : x.expr = .constant c)
    (he : e.Checked) (hnodup : e.ids.Nodup) (hlt : ∀ k ∈ e.ids, k < s.node) : c.id ≠ e.id := by
  have hnew := (h.renews hnodup hlt).head_notMem hnodup hlt (head?_ids he)
  rw [hx] at hnew
  intro heq
  exact hnew (by simp [heq])

end Contracts

end Expr

/-! ## Contracting a node -/

/-- What becomes of a node when the part `r` of it that is reduced next, at the end of a
path, is contracted: that part reduces to a constant, with the environment and the text
of the whole reduction, the new node differs in identities only from the old one with the
constant put in the place of that part, and what stands beside the path is kept. -/
structure Node.ContractsTo (n : Node) (env : Env) (n' : Node) (env' : Env) (out : String)
    (r : Expr) (path : List Nat) : Prop where
  redex : Operand.redex (.filled n) = .ok (.filled (.expr r))
  place : n.at? path = some (.expr r)
  kept : ∀ other, Beside path other → n'.at? other = n.at? other
  contracted : ∀ s : Supply, (∀ k ∈ n.ids, k < s.node) → ∃ c env₁ s₁,
    Operand.reduce env (.filled (.expr r)) s = .ok (⟨.constant c, env₁, out⟩, s₁) ∧
      env₁.contents = env'.contents ∧
      ∀ s₂, ∃ m s₃, Operand.substitute (.filled n) (.filled (.expr r))
        (.filled (.expr (.constant c))) s₂ = .ok (.filled m, s₃) ∧ m.shape = n'.shape

section ContractsTo

variable {n n' : Node} {env env' : Env} {out : String} {r e e' : Expr} {c : Constant}
  {path : List Nat} {s s' : Supply} {x : Reduction}

/-- A reduction of the redex and the replacements by what it gives make a contraction. -/
theorem Expr.Reduces.contracted (h : r.Reduces env s ⟨.constant c, env', out⟩ s')
    (hr : r.Checked) (hnodup : r.ids.Nodup) (hsub : r.ids ⊆ n.ids)
    (hreplace : ∀ c₀ : Constant, c₀.value = c.value → ∀ s₂, ∃ m s₃,
      n.replace? r.id (.filled (.expr (.constant c₀))) s₂ = .ok (some (.filled m), s₃) ∧
        m.shape = n'.shape) (s₀ : Supply) (hlt : ∀ k ∈ n.ids, k < s₀.node) :
    ∃ c env₁ s₁, Operand.reduce env (.filled (.expr r)) s₀ = .ok (⟨.constant c, env₁, out⟩, s₁) ∧
      env₁.contents = env'.contents ∧
      ∀ s₂, ∃ m s₃, Operand.substitute (.filled n) (.filled (.expr r))
        (.filled (.expr (.constant c))) s₂ = .ok (.filled m, s₃) ∧ m.shape = n'.shape := by
  obtain ⟨x₀, s₀', hred, hshape, hcontents, hout⟩ := h.alike rfl rfl s₀
  obtain ⟨c₀, hc₀, hvalue⟩ := Expr.shape_eq_constant hshape
  have hne : c₀.id ≠ r.id := hred.constant_id_ne hc₀ hr hnodup fun k hk => hlt k (hsub hk)
  have hx₀ : x₀ = ⟨.constant c₀, x₀.env, out⟩ := by
    cases hout
    rw [← hc₀]
  have hreduce := hred.reduce_eq hr
  rw [hx₀] at hreduce
  refine ⟨c₀, x₀.env, s₀', hreduce, hcontents, ?_⟩
  intro s₂
  obtain ⟨m, s₃, hm, hmshape⟩ := hreplace c₀ hvalue s₂
  have hsame : Operand.same (.filled (.expr (.constant c₀))) (.filled (.expr r)) = false := by
    rw [Operand.same, Node.same, beq_eq_false_iff_ne]
    exact hne
  exact ⟨m, s₃, by simp [Operand.substitute, hsame, hm], hmshape⟩

/-- A reduction contracts an expression. -/
theorem Expr.Reduces.contractsTo (h : e.Reduces env s x s') (he : e.Checked)
    (hnodup : e.ids.Nodup) :
    ∃ r path, (Node.expr e).ContractsTo env (.expr x.expr) x.env x.output r path := by
  obtain ⟨c, s₁, path, hred, hcontr⟩ := h.contracts
  have hr := (hcontr.checked he).1
  refine ⟨e.redex, path, ?_, hcontr.at?_path he, hcontr.at?_beside he, ?_⟩
  · simp [Operand.redex, Node.redex, Operand.node, Operand.expr_of_checked hr, Operand.reached]
  · apply hred.contracted (n := .expr e) hr (hcontr.nodup hnodup) hcontr.ids_subset
    intro c₀ hvalue s₂
    obtain ⟨e₀, s₃, hanew, hshape⟩ := hcontr.anew hvalue s₂
    exact ⟨.expr e₀, s₃, hanew.replace?_eq he hnodup, by simp [Node.shape, hshape]⟩

end ContractsTo

namespace Frame

variable {frame : Frame} {id target : NodeId} {e e' : Expr} {repl : Operand} {s s' : Supply}

/-- The children of a statement before the expression that is reduced in it. -/
def front : Frame → List Node
  | .declaration _ x => [x.node]
  | _ => []

/-- The children of a filled frame are those before the place and what fills it. -/
theorem children_fill (frame : Frame) (id : NodeId) (e : Expr) :
    (Node.stmt (frame.fill id e)).children = frame.front ++ [.expr e] := by
  cases frame <;> rfl

/-- Frames filled with expressions of one shape are of one shape. -/
theorem shape_fill (frame : Frame) (id id' : NodeId) (h : e.shape = e'.shape) :
    (frame.fill id e).shape = (frame.fill id' e').shape := by
  cases frame <;> simp [fill, Stmt.shape, h]

/-- A node that is replaced in the expression and does not stand around it. -/
theorem replace?_fill (hframe : (frame.fill id e).Checked) (hid : id ≠ target)
    (habs : target ∉ frame.ids)
    (h : e.replace? target repl s = .ok (some (.filled (.expr e')), s')) :
    (frame.fill id e).replace? target repl s =
      .ok (some (.stmt (frame.fill s'.node e')), s'.next) := by
  cases frame with
  | expression =>
    simp only [fill, Stmt.replace?, Stmt.id, hid, ↓reduceIte, Build.bind_apply,
      Expr.replaceOption?, h]
    exact replacedStmt_apply (Build.expression_apply e' s')
  | declaration t x =>
    have hx : x.id ≠ target := fun hk => habs (by simp [ids, hk])
    simp only [fill, Stmt.replace?, Stmt.id, hid, hx, ↓reduceIte, Build.bind_apply,
      Expr.replaceOption?, h]
    exact replacedStmt_apply (Build.declaration_apply hframe.1 x e' s')
  | condJump t f o =>
    simp only [fill, Stmt.replace?, Stmt.id, hid, ↓reduceIte, Build.bind_apply, h]
    exact replacedStmt_apply (Build.condJump_apply e' t f o s')

end Frame

/-- A reduction in a statement contracts the statement. -/
theorem Frame.contractsTo {frame : Frame} {id id' : NodeId} {e : Expr} {env : Env}
    {s s' : Supply} {x : Reduction} (h : e.Reduces env s x s')
    (hchecked : (frame.fill id e).Checked) (hnodup : (frame.fill id e).ids.Nodup) :
    ∃ r path, (Node.stmt (frame.fill id e)).ContractsTo env (.stmt (frame.fill id' x.expr)) x.env
      x.output r path := by
  have he := hchecked.of_fill
  have hparts := hnodup
  rw [Frame.ids_fill, List.append_nil] at hparts
  obtain ⟨c, s₁, path, hred, hcontr⟩ := h.contracts
  have hr := (hcontr.checked he).1
  have hsub : e.redex.ids ⊆ (Node.stmt (frame.fill id e)).ids := by
    intro k hk
    rw [Node.ids_stmt, Frame.ids_fill]
    simp [hcontr.ids_subset hk]
  refine ⟨e.redex, frame.front.length :: path, ?_, ?_, ?_, ?_⟩
  · simp [Operand.redex, Node.redex, Stmt.redex_fill, h.constant?_eq_none, Operand.node,
      Operand.expr_of_checked hr, Operand.reached]
  · rw [Node.at?_child (frame.children_fill id e), hcontr.at?_path he]
  · exact Node.at?_beside (frame.children_fill id e) (frame.children_fill id' x.expr)
      (hcontr.at?_beside he)
  · have henodup := hparts.of_cons.of_append_right
    apply hred.contracted hr (hcontr.nodup henodup) hsub
    intro c₀ hvalue s₂
    obtain ⟨e₀, s₃, hanew, hshape⟩ := hcontr.anew hvalue s₂
    have hmem : e.redex.id ∈ e.ids :=
      hcontr.ids_subset (List.mem_of_mem_head? (Expr.head?_ids hr))
    have hid : id ≠ e.redex.id := by
      rintro rfl
      exact (List.nodup_cons.1 hparts).1 (List.mem_append_right _ hmem)
    have habs : e.redex.id ∉ frame.ids := fun hk =>
      List.disjoint_of_nodup_append hparts.of_cons hk hmem
    refine ⟨_, _, Frame.replace?_fill hchecked hid habs (hanew.replace?_eq he henodup), ?_⟩
    simp only [Node.shape, frame.shape_fill _ id' hshape]

/-! ## Steps that discard the active statement -/

/-- The ways in which a step is done with the active statement: it advances past an
expression, binds or unbinds a name, or jumps. -/
inductive State.Discards (s : State) : Stmt → State → Prop
  | advance (id : NodeId) (v : Option Expr) :
      Discards s (.expression id v) (s.moveTo (s.pc + 1))
  | bind (id : NodeId) (t : Datatype) (x : Identifier) (v : Option Expr) (value : Value) :
      Discards s (.declaration id t x v) (s.declare x.name value)
  | unbind {env : Env} (id : NodeId) (x : Identifier) : s.env.unbind? x.name = some env →
      Discards s (.undeclaration id x) ({ s with env }.moveTo (s.pc + 1))
  | jump {st : Stmt} {l : Label} {t : State} : l ∈ st.targets → s.jumpTo l = .ok t →
      Discards s st t

namespace State

variable {s t : State} {st : Stmt}

/-- A step that discards its statement draws one identity at most. -/
theorem Discards.supply_le (h : s.Discards st t) : t.supply.node ≤ s.supply.node + 1 := by
  cases h with
  | advance id v => exact Nat.le_succ _
  | bind id t x v value => exact Nat.le_refl _
  | unbind id x hx => exact Nat.le_succ _
  | jump hl hjump =>
    unfold jumpTo at hjump
    split at hjump
    · cases hjump
      exact Nat.le_succ _
    · cases hjump

/-- A declaration that succeeds discards its statement. -/
theorem declareChecked_discards {x : Identifier} {value : Except EvalError Value} (id : NodeId)
    (d : Datatype) (v : Option Expr) (h : s.declareChecked x.name value = .ok t) :
    s.Discards (.declaration id d x v) t := by
  unfold declareChecked at h
  split at h
  · cases h
  · split at h
    · cases h
    · cases h
      exact .bind id d x v _

/-- A step reduces the expression of the active statement, or the active statement has
nothing to be reduced and is discarded. -/
theorem step_cases (hactive : s.active = .filled st) (h : s.step = .ok t) :
    (∃ frame id e x sup, st = Frame.fill frame id e ∧ e.constant? = none ∧
      e.reduce s.env s.supply = .ok (x, sup) ∧
      t = { s with
        active := .filled (frame.fill sup.node x.expr), env := x.env
        output := s.output ++ x.output, supply := sup.next }) ∨
    st.redex = .stmt st ∧ s.Discards st t := by
  have hstep : s.stepStmt st = .ok t := by
    unfold step at h
    split at h
    · cases h
    · rwa [hactive] at h
  have reduce : ∀ (frame : Frame) (id : NodeId) (e : Expr), st = frame.fill id e →
      e.constant? = none →
      ∃ frame id e x sup, st = Frame.fill frame id e ∧ e.constant? = none ∧
        e.reduce s.env s.supply = .ok (x, sup) ∧
        t = { s with
          active := .filled (frame.fill sup.node x.expr), env := x.env
          output := s.output ++ x.output, supply := sup.next } := by
    rintro frame id e rfl he
    cases hx : e.reduce s.env s.supply with
    | error err =>
      rw [stepStmt_fill_error he hx] at hstep
      cases hstep
    | ok p => exact ⟨frame, id, e, p.1, p.2, rfl, he, hx, stepStmt_fill_eq_ok he hx hstep⟩
  cases st with
  | expression id v =>
    cases v with
    | none =>
      cases hstep
      exact .inr ⟨rfl, .advance id none⟩
    | some e =>
      cases he : e.constant? with
      | none => exact .inl (reduce .expression id e rfl he)
      | some c =>
        simp only [stepStmt, he] at hstep
        cases hstep
        exact .inr ⟨by simp [Stmt.redex, Expr.redex?, he], .advance id _⟩
  | declaration id d x v =>
    cases v with
    | none =>
      simp only [stepStmt] at hstep
      exact .inr ⟨rfl, declareChecked_discards id d none hstep⟩
    | some e =>
      cases he : e.constant? with
      | none => exact .inl (reduce (.declaration d x) id e rfl he)
      | some c =>
        simp only [stepStmt, he] at hstep
        exact .inr ⟨by simp [Stmt.redex, Expr.redex?, he], declareChecked_discards id d _ hstep⟩
  | undeclaration id x =>
    simp only [stepStmt] at hstep
    split at hstep
    · rename_i env hx
      cases hstep
      exact .inr ⟨rfl, .unbind id x hx⟩
    · cases hstep
  | jump id l => exact .inr ⟨rfl, .jump (by simp [Stmt.targets]) hstep⟩
  | condJump id c onTrue onFalse o =>
    cases hc : c.constant? with
    | none => exact .inl (reduce (.condJump onTrue onFalse o) id c rfl hc)
    | some k =>
      simp only [stepStmt, hc] at hstep
      split at hstep
      · cases hstep
      · rename_i b hb
        refine .inr ⟨by simp [Stmt.redex, Expr.redex?, hc], .jump ?_ hstep⟩
        cases b <;> simp [Stmt.targets]
  | _ => cases hstep

end State

/-! ## Reducing, searching, replacing and stepping agree -/

/-- A reduction of a checked expression in which no node occurs twice contracts its redex.
A step from a state with such an active statement contracts the redex of that statement
and keeps the place, or else the statement is its own redex, and that is exactly when the
step discards it. -/
theorem redex_contracted :
    (∀ (e : Expr) (env : Env) (s s' : Supply) (x : Reduction), e.Checked → e.ids.Nodup →
      Operand.reduce env (.filled (.expr e)) s = .ok (x, s') →
      ∃ r path, (Node.expr e).ContractsTo env (.expr x.expr) x.env x.output r path) ∧
    ∀ (s t : State) (st : Stmt), s.active = .filled st → st.Checked → st.ids.Nodup →
      s.step = .ok t →
      (st.redex ≠ .stmt st → t.pc = s.pc ∧ t.program = s.program ∧
        ∃ st' out r path, t.active = .filled st' ∧ t.output = s.output ++ out ∧
          (Node.stmt st).ContractsTo s.env (.stmt st') t.env out r path) ∧
      (st.redex = .stmt st ↔ s.Discards st t) := by
  constructor
  · intro e env s s' x he hnodup hx
    exact ((Expr.reduce_eq_ok_iff he).1 hx).contractsTo he hnodup
  · intro s t st hactive hst hnodup hstep
    rcases State.step_cases hactive hstep with ⟨frame, id, e, x, sup, rfl, he, hx, rfl⟩ | hdiscard
    · have hred := (Expr.reduce_eq_ok_iff hst.of_fill).1 hx
      have hredex : (frame.fill id e).redex ≠ .stmt (frame.fill id e) := by
        simp [Stmt.redex_fill, he]
      refine ⟨fun _ => ⟨rfl, rfl, ?_⟩, fun h => absurd h hredex, fun h => ?_⟩
      · obtain ⟨r, path, hcontr⟩ := Frame.contractsTo hred hst hnodup
        exact ⟨_, x.output, r, path, rfl, rfl, hcontr⟩
      · have hle : sup.node + 1 ≤ s.supply.node + 1 := h.supply_le
        exact absurd (Nat.le_of_succ_le_succ hle) (Nat.not_le_of_lt hred.supply_lt)
    · exact ⟨fun h => absurd hdiscard.1 h, fun _ => hdiscard.2, fun _ => hdiscard.1⟩

/-- The expression `x = 0 && y`, which is reduced without looking at `y`. -/
def shortCircuit : Expr :=
  .assign 1 ⟨2, "x"⟩ (.binary 3 .and (.constant ⟨4, .int 0⟩) (.identifier ⟨5, "y"⟩))

/-- A state that evaluates the expression where only `x` is in scope. -/
def shortCircuitState : State :=
  ⟨[.filled (.expression 6 (some shortCircuit))], 0, .filled (.expression 6 (some shortCircuit)),
    ⟨[⟨"x", ⟨7, .int 5⟩⟩]⟩, "", ⟨8, 0⟩⟩

/-- The conjunction is decided by its left operand, and the other one is never looked at. -/
theorem redex_contracted_shortCircuit :
    shortCircuit.Checked ∧
      (∃ x s' r path, Operand.reduce shortCircuitState.env (.filled (.expr shortCircuit)) ⟨8, 0⟩ =
        .ok (x, s') ∧ (Node.expr shortCircuit).ContractsTo shortCircuitState.env (.expr x.expr)
          x.env x.output r path) ∧
      ∃ t st' out r path, shortCircuitState.step = .ok t ∧ t.pc = 0 ∧ t.active = .filled st' ∧
        (Node.stmt (.expression 6 (some shortCircuit))).ContractsTo shortCircuitState.env
          (.stmt st') t.env out r path := by
  have hchecked : shortCircuit.Checked := by
    simp [shortCircuit, Identifier.Checked, BinaryOp.known]
  obtain ⟨x, s', hx⟩ : ∃ x s', Operand.reduce shortCircuitState.env (.filled (.expr shortCircuit))
      ⟨8, 0⟩ = .ok (x, s') := ⟨_, _, rfl⟩
  obtain ⟨t, ht⟩ : ∃ t, shortCircuitState.step = .ok t := ⟨_, rfl⟩
  obtain ⟨r, path, hexpr⟩ := redex_contracted.1 shortCircuit _ _ s' x hchecked (by decide) hx
  have hstep := redex_contracted.2 shortCircuitState t (.expression 6 (some shortCircuit)) rfl
    hchecked (by decide) ht
  obtain ⟨hpc, -, st', out, r', path', hactive, -, hstmt⟩ :=
    hstep.1 (by simp [Stmt.redex, Expr.redex?, shortCircuit, Expr.constant?])
  exact ⟨hchecked, ⟨x, s', r, path, hx, hexpr⟩, t, st', out, r', path', ht, hpc, hactive, hstmt⟩

end Stepwise
