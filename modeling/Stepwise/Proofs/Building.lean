import Stepwise.Machine.Env
import Stepwise.Proofs.Tree
import Stepwise.Syntax.Update

/-!
# Proofs - Computations that draw from a supply

A computation of `Build` is a function of the supply it draws from.  These
lemmas open it one operation at a time.  A checked builder whose operands are of
the right class succeeds, and the node it gives has the next identity of the
supply.

Main results:

- `Build.bind_apply`: a sequence of two computations.
- `Build.binary_apply` and its siblings: what the checked builders give.
- `Operand.expr_of_checked`: a checked expression is never an empty place.
- `Expr.withLeft_apply` and its siblings: a checked part is put into its place.
-/

namespace Stepwise

namespace Build

variable {ε α β : Type} {s : Supply}

/-! ## The operations of the monad -/

@[simp] theorem pure_apply (a : α) (s : Supply) : (pure a : Build ε α) s = .ok (a, s) := rfl

@[simp] theorem throw_apply (e : ε) (s : Supply) : (throw e : Build ε α) s = .error e := rfl

/-- The second of two computations draws from what the first one left. -/
@[simp] theorem bind_apply (x : Build ε α) (f : α → Build ε β) (s : Supply) :
    (x >>= f) s =
      match x s with
      | .error e => .error e
      | .ok (a, s') => f a s' := by
  cases hx : x s <;> simp [bind, StateT.bind, Except.bind, hx]

/-- Two computations succeed in turn when each of them does. -/
theorem bind_eq_ok_iff {x : Build ε α} {f : α → Build ε β} {b : β} {s s' : Supply} :
    (x >>= f) s = .ok (b, s') ↔ ∃ a s₁, x s = .ok (a, s₁) ∧ f a s₁ = .ok (b, s') := by
  rw [bind_apply]
  rcases x s with e | ⟨a, s₁⟩ <;> simp

@[simp] theorem modifyGet_apply (f : Supply → α × Supply) (s : Supply) :
    (modifyGet f : Build ε α) s = .ok (f s) := rfl

/-- What a computation gives may be passed on. -/
@[simp] theorem map_apply (f : α → β) (x : Build ε α) (s : Supply) :
    (f <$> x) s =
      match x s with
      | .error e => .error e
      | .ok (a, s') => .ok (f a, s') := by
  rw [map_eq_pure_bind, bind_apply]
  rfl

@[simp] theorem ofExcept_ok (a : α) (s : Supply) :
    (ofExcept (.ok a) : Build ε α) s = .ok (a, s) := rfl

@[simp] theorem ofExcept_error (e : ε) (s : Supply) :
    (ofExcept (.error e) : Build ε α) s = .error e := rfl

@[simp] theorem constant_apply (v : Value) (s : Supply) :
    (constant v : Build ε Constant) s = .ok (⟨s.node, v⟩, s.next) := rfl

@[simp] theorem literal_apply (v : Value) (s : Supply) :
    (literal v : Build ε Expr) s = .ok (.constant ⟨s.node, v⟩, s.next) := rfl

@[simp] theorem copy_apply (c : Constant) (s : Supply) :
    (c.copy : Build ε Constant) s = .ok (⟨s.node, c.value⟩, s.next) := rfl

@[simp] theorem env_bind_apply (env : Env) (name : String) (c : Constant) (s : Supply) :
    (env.bind name c : Build ε Env) s = .ok (env.insert name ⟨s.node, c.value⟩, s.next) := rfl

/-- Reading gives a copy of what is found, with an identity of its own. -/
theorem read_apply_some {env : Env} {name : String} {c : Constant}
    (h : env.find? name = some c) (s : Supply) :
    (env.read name : Build ε (Option Constant)) s = .ok (some ⟨s.node, c.value⟩, s.next) := by
  simp [Env.read, h]

/-- Reading a name that is not bound gives nothing and draws no identity. -/
theorem read_apply_none {env : Env} {name : String} (h : env.find? name = none) (s : Supply) :
    (env.read name : Build ε (Option Constant)) s = .ok (none, s) := by
  simp [Env.read, h]

/-! ## Checked builders on operands of the right class -/

/-- A known operator takes any two expressions. -/
theorem binary_apply {op : BinaryOp} (h : op.known = true) (l r : Expr) (s : Supply) :
    binary op (.filled (.expr l)) (.filled (.expr r)) s = .ok (.binary s.node op l r, s.next) := by
  simp [binary, h, asExpr]

theorem assign_apply (x : Identifier) (v : Expr) (s : Supply) :
    assign (.ident x) (.filled (.expr v)) s = .ok (.assign s.node x v, s.next) := by
  simp [assign, Operand.ident, Operand.expr, asIdentifier, asExpr]

theorem addAssign_apply (x : Identifier) (v : Expr) (s : Supply) :
    addAssign (.ident x) (.filled (.expr v)) s = .ok (.addAssign s.node x v, s.next) := by
  simp [addAssign, Operand.ident, Operand.expr, asIdentifier, asExpr]

/-- Places filled with expressions hold these expressions. -/
theorem mapM_asExpr (role : Role) (es : List Expr) :
    (es.map fun e => Slot.filled (.expr e)).mapM (asExpr role) = .ok es := by
  induction es with
  | nil => rfl
  | cons e es ih => simp only [List.map_cons, List.mapM_cons, ih, asExpr, bind, Except.bind, pure,
      Except.pure]

theorem invoke_apply (f : Identifier) (args : List Expr) (s : Supply) :
    invoke (.ident f) (args.map fun e => .filled (.expr e)) s =
      .ok (.invoke s.node f args, s.next) := by
  simp only [invoke, Operand.ident, Operand.expr, asIdentifier, mapM_asExpr, bind_apply,
    ofExcept_ok, fresh_apply, pure_apply]

/-- A declaration takes a type that can be declared, with an initial value. -/
theorem declaration_apply {t : Datatype} (h : t.declarable = true) (x : Identifier) (e : Expr)
    (s : Supply) :
    declaration t (.ident x) (.filled (.expr e)) s =
      .ok (.declaration s.node t x (some e), s.next) := by
  simp [declaration, h, Operand.ident, Operand.expr, asIdentifier, asOptional, asExpr, Except.map]

/-- A declaration takes a type that can be declared, without an initial value. -/
theorem declaration_none_apply {t : Datatype} (h : t.declarable = true) (x : Identifier)
    (s : Supply) :
    declaration t (.ident x) .empty s = .ok (.declaration s.node t x none, s.next) := by
  simp [declaration, h, Operand.ident, Operand.expr, asIdentifier, asOptional]

/-- A conditional jump takes any condition, two labels and the statement it comes from. -/
theorem condJump_apply (c : Expr) (t f : Label) (o : Stmt) (s : Supply) :
    condJump (.filled (.expr c)) (.label t) (.label f) (.stmt o) s =
      .ok (.condJump s.node c t f o, s.next) := by
  simp [condJump, Operand.label, Operand.stmt, asExpr, asLabel, asStmt]

/-- The condition of a conditional jump that is built was no hole. -/
theorem condJump_eq_ok {c : Expr} {t f : Label} {o jump : Stmt} {s s' : Supply}
    (h : condJump (.expr c) (.label t) (.label f) (.stmt o) s = .ok (jump, s')) :
    jump = .condJump s.node c t f o ∧ s' = s.next := by
  have hc : Operand.expr c = .filled (.expr c) := by
    cases c with
    | hole v => cases v <;> cases h
    | _ => rfl
  rw [hc, condJump_apply] at h
  cases h
  exact ⟨rfl, rfl⟩

theorem undeclaration_apply (x : Identifier) (s : Supply) :
    undeclaration (.ident x) s = .ok (.undeclaration s.node x, s.next) := by
  simp [undeclaration, Operand.ident, Operand.expr, asIdentifier]

/-- A declaration that is built has the parts that were handed over. -/
theorem declaration_eq_ok {t : Datatype} {x : Identifier} {e : Expr} {st : Stmt} {s s' : Supply}
    (h : declaration t (.ident x) (.filled (.expr e)) s = .ok (st, s')) :
    st = .declaration s.node t x (some e) ∧ s' = s.next := by
  cases ht : t.declarable with
  | false => simp [declaration, ht] at h
  | true =>
    rw [declaration_apply ht] at h
    cases h
    exact ⟨rfl, rfl⟩

theorem expression_apply (e : Expr) (s : Supply) :
    expression (.filled (.expr e)) s = .ok (.expression s.node (some e), s.next) := by
  simp [expression, asOptional, asExpr, Except.map]

theorem ifThen_apply (c : Expr) (b : Stmt) (s : Supply) :
    ifThen (.filled (.expr c)) (.stmt b) s = .ok (.ifThen s.node c b, s.next) := by
  simp [ifThen, Operand.stmt, asExpr, asStmt]

theorem forLoop_apply (i c u b : Stmt) (s : Supply) :
    forLoop (.stmt i) (.stmt c) (.stmt u) (.stmt b) s = .ok (.forLoop s.node i c u b, s.next) := by
  simp [forLoop, Operand.stmt, asStmt]

/-- Places filled with statements hold these statements. -/
theorem mapM_asStmt (role : Role) (ss : List Stmt) :
    ss.mapM (asStmt role ∘ Operand.stmt) = .ok ss := by
  induction ss with
  | nil => rfl
  | cons s ss ih => simp [ih, Operand.stmt, asStmt, bind, Except.bind, pure, Except.pure]

theorem block_apply (ss : List Stmt) (s : Supply) :
    block (ss.map Operand.stmt) s = .ok (.block s.node ss, s.next) := by
  simp [block, mapM_asStmt]

end Build

/-! ## Checked expressions as operands -/

/-- A checked expression is not a hole. -/
theorem Operand.expr_of_checked {e : Expr} (h : e.Checked) :
    Operand.expr e = .filled (.expr e) := by
  cases e with
  | hole reserved => exact absurd h (by simp)
  | _ => rfl

/-- The operands of checked expressions are filled. -/
theorem Operand.map_expr_of_checked {es : List Expr} (h : Expr.AllChecked es) :
    es.map Operand.expr = es.map fun e => .filled (.expr e) :=
  List.map_congr_left fun e he => Operand.expr_of_checked (Expr.allChecked_iff.1 h e he)

namespace Build

variable {s s' : Supply} {e l r v : Expr}

/-- An expression that is taken as an operand is that expression. -/
theorem asExpr_expr {role : Role} {e e' : Expr} (h : asExpr role (.expr e) = .ok e') : e' = e := by
  cases e with
  | hole v =>
    cases v with
    | none => cases h
    | some v => cases h
  | _ =>
    cases h
    rfl

theorem asIdentifier_ident (role : Role) (x : Identifier) : asIdentifier role (.ident x) = .ok x :=
  rfl

/-- Operands that are all taken as expressions are these expressions. -/
theorem mapM_asExpr_expr {role : Role} {es es' : List Expr}
    (h : (es.map Operand.expr).mapM (asExpr role) = .ok es') : es' = es := by
  induction es generalizing es' with
  | nil =>
    cases h
    rfl
  | cons e es ih =>
    rw [List.map_cons, List.mapM_cons] at h
    cases he : asExpr role (.expr e) with
    | error err =>
      rw [he] at h
      cases h
    | ok a =>
      cases hes : (es.map Operand.expr).mapM (asExpr role) with
      | error err =>
        rw [he, hes] at h
        cases h
      | ok as =>
        rw [he, hes] at h
        cases h
        rw [asExpr_expr he, ih hes]

/-- A binary expression that is built has the operands that were handed over. -/
theorem binary_eq_ok {op : BinaryOp} (h : binary op (.expr l) (.expr r) s = .ok (e, s')) :
    e = .binary s.node op l r ∧ s' = s.next := by
  unfold binary at h
  cases hop : op.known <;> cases hl : asExpr .leftOperand (.expr l) <;>
    cases hr : asExpr .rightOperand (.expr r) <;> simp [hop, hl, hr] at h
  rw [← asExpr_expr hl, ← asExpr_expr hr]
  exact ⟨h.1.symm, h.2.symm⟩

/-- An assignment that is built has the name and the value it was given. -/
theorem assign_eq_ok {x : Identifier} (h : assign (.ident x) (.expr v) s = .ok (e, s')) :
    e = .assign s.node x v ∧ s' = s.next := by
  unfold assign at h
  cases hv : asExpr .assignedValue (.expr v) <;>
    simp [asIdentifier_ident, hv] at h
  rw [← asExpr_expr hv]
  exact ⟨h.1.symm, h.2.symm⟩

theorem addAssign_eq_ok {x : Identifier} (h : addAssign (.ident x) (.expr v) s = .ok (e, s')) :
    e = .addAssign s.node x v ∧ s' = s.next := by
  unfold addAssign at h
  cases hv : asExpr .addedValue (.expr v) <;>
    simp [asIdentifier_ident, hv] at h
  rw [← asExpr_expr hv]
  exact ⟨h.1.symm, h.2.symm⟩

theorem invoke_eq_ok {f : Identifier} {args : List Expr}
    (h : invoke (.ident f) (args.map Operand.expr) s = .ok (e, s')) :
    e = .invoke s.node f args ∧ s' = s.next := by
  unfold invoke at h
  cases hargs : (args.map Operand.expr).mapM (asExpr .argument) <;>
    simp [asIdentifier_ident, hargs] at h
  rw [← mapM_asExpr_expr hargs]
  exact ⟨h.1.symm, h.2.symm⟩

end Build

/-! ## Replaced parts -/

namespace Expr

section Replaced

variable {s s' : Supply} {e e' l r v : Expr} {id : NodeId}

/-- Replacing the left operand gives a new node that differs in that operand only. -/
theorem withLeft_eq_ok {op : BinaryOp}
    (h : (binary id op l r).withLeft (.expr e) s = .ok (e', s')) :
    e' = .binary s.node op e r ∧ s' = s.next :=
  Build.binary_eq_ok h

theorem withRight_eq_ok {op : BinaryOp}
    (h : (binary id op l r).withRight (.expr e) s = .ok (e', s')) :
    e' = .binary s.node op l e ∧ s' = s.next :=
  Build.binary_eq_ok h

/-- Replacing the value of an assignment gives a new node that differs in the value only. -/
theorem withValue_assign_eq_ok {x : Identifier}
    (h : (assign id x v).withValue (.expr e) s = .ok (e', s')) :
    e' = .assign s.node x e ∧ s' = s.next :=
  Build.assign_eq_ok h

theorem withValue_addAssign_eq_ok {x : Identifier}
    (h : (addAssign id x v).withValue (.expr e) s = .ok (e', s')) :
    e' = .addAssign s.node x e ∧ s' = s.next :=
  Build.addAssign_eq_ok h

/-- Replacing an argument gives a new call that differs in that argument only. -/
theorem withArgument_eq_ok {f : Identifier} {args : List Expr} {i : Nat}
    (h : (invoke id f args).withArgument i (.expr e) s = .ok (e', s')) :
    e' = .invoke s.node f (args.set i e) ∧ s' = s.next := by
  rw [withArgument] at h
  split at h
  · cases h
  · rw [Int.toNat_natCast, ← List.map_set] at h
    exact Build.invoke_eq_ok h

end Replaced

variable {e l r v : Expr}

/-- The left operand of a known operator can be replaced by a checked expression. -/
theorem withLeft_apply {op : BinaryOp} (id : NodeId) (l : Expr) (hop : op.known = true)
    (he : e.Checked) (hr : r.Checked) (s : Supply) :
    (binary id op l r).withLeft (.expr e) s = .ok (.binary s.node op e r, s.next) := by
  rw [withLeft, Operand.expr_of_checked he, Operand.expr_of_checked hr, Build.binary_apply hop]

theorem withRight_apply {op : BinaryOp} (id : NodeId) (r : Expr) (hop : op.known = true)
    (he : e.Checked) (hl : l.Checked) (s : Supply) :
    (binary id op l r).withRight (.expr e) s = .ok (.binary s.node op l e, s.next) := by
  rw [withRight, Operand.expr_of_checked he, Operand.expr_of_checked hl, Build.binary_apply hop]

/-- The value of an assignment can be replaced by a checked expression. -/
theorem withValue_assign_apply (id : NodeId) (x : Identifier) (v : Expr) (he : e.Checked)
    (s : Supply) :
    (assign id x v).withValue (.expr e) s = .ok (.assign s.node x e, s.next) := by
  rw [withValue, Operand.expr_of_checked he, Build.assign_apply]

theorem withValue_addAssign_apply (id : NodeId) (x : Identifier) (v : Expr) (he : e.Checked)
    (s : Supply) :
    (addAssign id x v).withValue (.expr e) s = .ok (.addAssign s.node x e, s.next) := by
  rw [withValue, Operand.expr_of_checked he, Build.addAssign_apply]

/-- An argument among checked ones can be replaced by a checked expression. -/
theorem withArgument_apply {front back : List Expr} (id : NodeId) (f : Identifier)
    (hargs : AllChecked (front ++ v :: back)) (he : e.Checked) (s : Supply) :
    (invoke id f (front ++ v :: back)).withArgument front.length (.expr e) s =
      .ok (.invoke s.node f (front ++ e :: back), s.next) := by
  have hset : ((front ++ v :: back).map Operand.expr).set front.length (.expr e) =
      (front ++ e :: back).map Operand.expr := by
    simp [List.set_append_right]
  have hnew : AllChecked (front ++ e :: back) := by
    simp only [allChecked_iff, List.mem_append, List.mem_cons] at hargs ⊢
    rintro a (ha | rfl | ha)
    · exact hargs a (.inl ha)
    · exact he
    · exact hargs a (.inr (.inr ha))
  have hposition : ¬((front.length : Int) < 0 ∨
      (front ++ v :: back).length ≤ (front.length : Int).toNat) := by
    simp only [List.length_append, List.length_cons]
    omega
  rw [withArgument, if_neg hposition, Int.toNat_natCast, hset, Operand.map_expr_of_checked hnew,
    Build.invoke_apply]

end Expr

namespace Stmt

variable {e : Expr}

/-- The expression of a statement can be replaced by a checked one. -/
theorem withValue_expression_apply (id : NodeId) (v : Option Expr) (he : e.Checked) (s : Supply) :
    (expression id v).withValue (.expr e) s = .ok (.expression s.node (some e), s.next) := by
  rw [withValue, Operand.expr_of_checked he, Build.expression_apply]

/-- The initial value of a declaration can be replaced if its type can be declared. -/
theorem withValue_declaration_apply {t : Datatype} (id : NodeId) (x : Identifier)
    (v : Option Expr) (ht : t.declarable = true) (he : e.Checked) (s : Supply) :
    (declaration id t x v).withValue (.expr e) s =
      .ok (.declaration s.node t x (some e), s.next) := by
  rw [withValue, Operand.expr_of_checked he, Build.declaration_apply ht]

/-- The condition of a conditional jump can be replaced by a checked expression. -/
theorem withCondition_condJump_apply (id : NodeId) (c : Expr) (t f : Label) (o : Stmt)
    (he : e.Checked) (s : Supply) :
    (condJump id c t f o).withCondition (.expr e) s = .ok (.condJump s.node e t f o, s.next) := by
  rw [withCondition, Operand.expr_of_checked he, Build.condJump_apply]

end Stmt

/-- A node handed over is itself, or it is a hole, in whose place nothing stands. -/
theorem Operand.node_cases (n : Node) : (node n).get? = none ∨
    node n = .filled n ∧ ∀ v, n ≠ .expr (.hole v) := by
  rcases n with e | st
  · rcases e with _ | _ | _ | _ | _ | _ | _ | _ | v
    case hole.none | hole.some => exact .inl rfl
    all_goals exact .inr ⟨rfl, fun v hv => by cases hv⟩
  · exact .inr ⟨rfl, fun v hv => by cases hv⟩

end Stepwise
