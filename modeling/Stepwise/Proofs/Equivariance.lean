import Stepwise.Proofs.Renaming
import Stepwise.Proofs.Views

/-!
# Proofs - Views do not depend on identities

The view of a state finds nodes by their identities and builds nodes with new ones.  When
the identities of the state are renamed, in step with the identities that are given out
next, every computation on the way gives the renamed result, and the view, which holds no
identities, is the same.

Main definitions:

- `Build.Along`, two computations of which the second one gives the renamed result.

Main results:

- `Expr.replace?_along` and `Stmt.replace?_along`: replacing a node in a renamed tree.
- `View.ofFragments_rename`: marking nodes in a renamed text.
- `State.Mirrors.view_eq`: states of which one mirrors the other have the same view.
-/

namespace Stepwise

variable {f : Nat → Nat}

/-! ## Renamed operands -/

/-- A renaming that tells identities apart and keeps zero, the identity of no node. -/
structure Faithful (f : Nat → Nat) : Prop where
  injective : Function.Injective f
  zero : f 0 = 0

/-- An operand with its identities renamed. -/
def Operand.rename (f : Nat → Nat) : Operand → Operand :=
  Slot.map (Node.rename f)

theorem Expr.id_rename (h : Faithful f) (e : Expr) : (e.rename f).id = f e.id := by
  cases e with
  | hole reserved => exact h.zero.symm
  | _ => rfl

theorem Stmt.id_rename (f : Nat → Nat) (s : Stmt) : (s.rename f).id = f s.id := by
  cases s <;> rfl

/-- The identity of a renamed node is renamed. -/
theorem Node.id_rename (h : Faithful f) (n : Node) : (n.rename f).id = f n.id := by
  cases n with
  | expr e => exact e.id_rename h
  | stmt s => exact s.id_rename f

/-- Renaming keeps apart the nodes that differ. -/
theorem Node.same_rename (h : Faithful f) (m n : Node) :
    (m.rename f).same (n.rename f) = m.same n := by
  rw [Bool.eq_iff_iff]
  simp [Node.same, Node.id_rename h, h.injective.eq_iff]

/-- Renaming keeps apart the operands that differ. -/
theorem Operand.same_rename (h : Faithful f) (x y : Operand) :
    (Operand.rename f x).same (Operand.rename f y) = x.same y := by
  cases x with
  | filled m =>
    cases y with
    | filled n => exact m.same_rename h n
    | _ => rfl
  | _ => cases y <;> rfl

/-- Renaming keeps the kind of a node. -/
theorem Node.kind_rename (f : Nat → Nat) (n : Node) : (n.rename f).kind = n.kind := by
  rcases n with e | s
  · cases e <;> rfl
  · cases s <;> rfl

theorem Operand.expr_rename (f : Nat → Nat) (e : Expr) :
    Operand.expr (e.rename f) = Operand.rename f (.expr e) := by
  cases e with
  | hole reserved => cases reserved <;> rfl
  | _ => rfl

theorem Operand.map_expr_rename (f : Nat → Nat) (es : List Expr) :
    (es.map (Expr.rename f)).map Operand.expr = (es.map .expr).map (Operand.rename f) := by
  rw [List.map_map, List.map_map]
  exact List.map_congr_left fun e _ => Operand.expr_rename f e

theorem Operand.optional_rename (f : Nat → Nat) (v : Option Expr) :
    Operand.optional (v.map (Expr.rename f)) = Operand.rename f (.optional v) := by
  cases v with
  | none => rfl
  | some e => exact Operand.expr_rename f e

/-! ## Computations in step -/

/-- What commutes with a renaming for each member does so for a list. -/
theorem mapM_rename {ε α β γ δ : Type} {k : α → β} {g : γ → δ} {p : α → Except ε γ}
    {q : β → Except ε δ} (h : ∀ u, q (k u) = (p u).map g) (us : List α) :
    (us.map k).mapM q = (us.mapM p).map (List.map g) := by
  induction us with
  | nil => rfl
  | cons u us ih =>
    simp only [List.map_cons, List.mapM_cons, h, ih]
    cases p u with
    | error e => rfl
    | ok v => cases us.mapM p <;> rfl

namespace Build

variable {ε α β γ δ : Type} {a : Nat}

/-- Two computations that fail with the same error, or of which the second one gives what the
first one gives, changed by `g`.  They start from supplies of which the second one is the
renamed first one, and end so. -/
def Along (f : Nat → Nat) (a : Nat) (g : α → β) (x : Build ε α) (y : Build ε β) : Prop :=
  ∀ s s₀ : Supply, a ≤ s.node → s₀.node = f s.node →
    (∃ e, x s = .error e ∧ y s₀ = .error e) ∨
      ∃ u t t₀, x s = .ok (u, t) ∧ y s₀ = .ok (g u, t₀) ∧ a ≤ t.node ∧ t₀.node = f t.node

namespace Along

variable {g : α → β} {k : γ → δ} {x : Build ε α} {y : Build ε β}

/-- Giving a value runs along with giving the renamed value. -/
theorem pure {u : α} {v : β} (h : v = g u) :
    Along f a g (Pure.pure u : Build ε α) (Pure.pure v) := by
  intro s s₀ hs hs₀
  rw [h]
  exact .inr ⟨u, s, s₀, rfl, rfl, hs, hs₀⟩

theorem throw (e : ε) : Along f a g (MonadExcept.throw e : Build ε α) (MonadExcept.throw e) :=
  fun _ _ _ _ => .inl ⟨e, rfl, rfl⟩

/-- Computations in turn run along if each of them does. -/
theorem bind {p : α → Build ε γ} {q : β → Build ε δ} (h : Along f a g x y)
    (hg : ∀ u, Along f a k (p u) (q (g u))) : Along f a k (x >>= p) (y >>= q) := by
  intro s s₀ hs hs₀
  rcases h s s₀ hs hs₀ with ⟨e, hx, hy⟩ | ⟨u, t, t₀, hx, hy, ht, ht₀⟩
  · refine .inl ⟨e, ?_, ?_⟩
    · rw [bind_apply, hx]
    · rw [bind_apply, hy]
  · rw [bind_apply, bind_apply, hx, hy]
    exact hg u t t₀ ht ht₀

/-- Drawing an identity runs along if the renaming shifts. -/
theorem fresh (hf : Shifts a f) : Along f a f (Build.fresh : Build ε NodeId) Build.fresh := by
  intro s s₀ hs hs₀
  refine .inr ⟨s.node, s.next, s₀.next, rfl, by rw [← hs₀]; rfl, Nat.le_succ_of_le hs, ?_⟩
  exact (congrArg (· + 1) hs₀).trans (hf s.node hs).symm

/-- Outcomes that need no identities run along if one is the other renamed. -/
theorem ofExcept {r : Except ε α} {r' : Except ε β} (h : r' = r.map g) :
    Along f a g (Build.ofExcept r) (Build.ofExcept r') := by
  cases r with
  | error e =>
    rw [h]
    exact throw e
  | ok u =>
    rw [h]
    exact pure rfl

/-- A choice runs along if its condition is kept. -/
theorem ite {p q : Prop} [Decidable p] [Decidable q] {x' : Build ε α} {y' : Build ε β}
    (hpq : q ↔ p) (h : Along f a g x y) (h' : Along f a g x' y') :
    Along f a g (if p then x else x') (if q then y else y') := by
  by_cases hp : p
  · rw [if_pos hp, if_pos (hpq.2 hp)]
    exact h
  · rw [if_neg hp, if_neg fun hq => hp (hpq.1 hq)]
    exact h'

theorem throw_bind (e : ε) (p : γ → Build ε α) (q : γ → Build ε β) :
    Along f a g (MonadExcept.throw e >>= p) (MonadExcept.throw e >>= q) :=
  fun _ _ _ _ => .inl ⟨e, rfl, rfl⟩

/-- Going on with what was found, or without. -/
theorem orElse {x : Build ε (Option α)} {y : Build ε (Option β)} {p : Option α → Build ε γ}
    {q : Option β → Build ε δ} (h : Along f a (Option.map g) x y)
    (hfound : ∀ u, Along f a k (p (some u)) (q (some (g u))))
    (hnone : Along f a k (p none) (q none)) : Along f a k (x >>= p) (y >>= q) := by
  refine h.bind fun o => ?_
  cases o with
  | some u => exact hfound u
  | none => exact hnone

end Along

/-! ## Builders -/

section Operands

variable (f : Nat → Nat) (role : Role) (x : Operand)

/-- Renaming keeps why an operand is refused. -/
theorem refuse_rename : refuse role (Operand.rename f x) = refuse role x := by
  cases x with
  | filled n => exact congrArg (NodeError.misfit role) (n.kind_rename f)
  | _ => rfl

/-- Taking an operand as an expression commutes with renaming. -/
theorem asExpr_rename : asExpr role (Operand.rename f x) = (asExpr role x).map (Expr.rename f) := by
  rcases x with - | v | e | s
  · rfl
  · rfl
  · rfl
  · exact congrArg Except.error (refuse_rename f role (.stmt s))

theorem asStmt_rename : asStmt role (Operand.rename f x) = (asStmt role x).map (Stmt.rename f) := by
  rcases x with - | v | e | s
  · rfl
  · rfl
  · exact congrArg Except.error (refuse_rename f role (.filled (.expr e)))
  · rfl

theorem asIdentifier_rename :
    asIdentifier role (Operand.rename f x) = (asIdentifier role x).map (Identifier.rename f) := by
  rcases x with - | v | e | s
  · rfl
  · rfl
  · cases e <;> rfl
  · exact congrArg Except.error (refuse_rename f role (.stmt s))

theorem asOptional_rename :
    asOptional role (Operand.rename f x) =
      (asOptional role x).map (Option.map (Expr.rename f)) := by
  cases x with
  | filled n =>
    change (asExpr role (Operand.rename f (.filled n))).map some = _
    rw [asExpr_rename]
    simp only [asOptional]
    cases asExpr role (.filled n) <;> rfl
  | _ => rfl

end Operands

section Builders

variable (hf : Shifts a f) (op : BinaryOp) (type : Datatype) (x y z w : Operand)
  (xs : List Operand)

include hf

/-- Building an operation commutes with renaming. -/
theorem binary_along : Along f a (Expr.rename f) (binary op x y)
    (binary op (Operand.rename f x) (Operand.rename f y)) := by
  unfold binary
  refine .ite Iff.rfl ?_ (.throw_bind _ _ _)
  refine .bind (.ofExcept (asExpr_rename f _ x)) fun l => ?_
  refine .bind (.ofExcept (asExpr_rename f _ y)) fun r => ?_
  exact .bind (.fresh hf) fun id => .pure rfl

theorem assign_along : Along f a (Expr.rename f) (assign x y)
    (assign (Operand.rename f x) (Operand.rename f y)) := by
  refine .bind (.ofExcept (asIdentifier_rename f _ x)) fun l => ?_
  refine .bind (.ofExcept (asExpr_rename f _ y)) fun r => ?_
  exact .bind (.fresh hf) fun id => .pure rfl

theorem addAssign_along : Along f a (Expr.rename f) (addAssign x y)
    (addAssign (Operand.rename f x) (Operand.rename f y)) := by
  refine .bind (.ofExcept (asIdentifier_rename f _ x)) fun l => ?_
  refine .bind (.ofExcept (asExpr_rename f _ y)) fun r => ?_
  exact .bind (.fresh hf) fun id => .pure rfl

theorem increment_along : Along f a (Expr.rename f) (increment x)
    (increment (Operand.rename f x)) := by
  refine .bind (.ofExcept (asIdentifier_rename f _ x)) fun l => ?_
  exact .bind (.fresh hf) fun id => .pure rfl

theorem invoke_along : Along f a (Expr.rename f) (invoke x xs)
    (invoke (Operand.rename f x) (xs.map (Operand.rename f))) := by
  refine .bind (.ofExcept (asIdentifier_rename f _ x)) fun l => ?_
  refine .bind (.ofExcept (mapM_rename (asExpr_rename f _) xs)) fun es => ?_
  refine .bind (.fresh hf) fun id => .pure ?_
  rw [Expr.rename, Expr.renameAll_eq_map]

theorem expression_along : Along f a (Stmt.rename f) (expression x)
    (expression (Operand.rename f x)) := by
  refine .bind (.ofExcept (asOptional_rename f _ x)) fun v => ?_
  exact .bind (.fresh hf) fun id => .pure rfl

theorem declaration_along : Along f a (Stmt.rename f) (declaration type x y)
    (declaration type (Operand.rename f x) (Operand.rename f y)) := by
  unfold declaration
  refine .ite Iff.rfl ?_ (.throw_bind _ _ _)
  refine .bind (.ofExcept (asIdentifier_rename f _ x)) fun i => ?_
  refine .bind (.ofExcept (asOptional_rename f _ y)) fun v => ?_
  exact .bind (.fresh hf) fun id => .pure rfl

theorem block_along : Along f a (Stmt.rename f) (block xs)
    (block (xs.map (Operand.rename f))) := by
  refine .bind (.ofExcept (mapM_rename (asStmt_rename f _) xs)) fun ss => ?_
  refine .bind (.fresh hf) fun id => .pure ?_
  rw [Stmt.rename, Stmt.renameAll_eq_map]

theorem forLoop_along : Along f a (Stmt.rename f) (forLoop x y z w)
    (forLoop (Operand.rename f x) (Operand.rename f y) (Operand.rename f z)
      (Operand.rename f w)) := by
  refine .bind (.ofExcept (asStmt_rename f _ x)) fun i => ?_
  refine .bind (.ofExcept (asStmt_rename f _ y)) fun c => ?_
  refine .bind (.ofExcept (asStmt_rename f _ z)) fun u => ?_
  refine .bind (.ofExcept (asStmt_rename f _ w)) fun b => ?_
  exact .bind (.fresh hf) fun id => .pure rfl

theorem ifThen_along : Along f a (Stmt.rename f) (ifThen x y)
    (ifThen (Operand.rename f x) (Operand.rename f y)) := by
  refine .bind (.ofExcept (asExpr_rename f _ x)) fun c => ?_
  refine .bind (.ofExcept (asStmt_rename f _ y)) fun b => ?_
  exact .bind (.fresh hf) fun id => .pure rfl

/-- What a conditional jump refers to is not renamed. -/
theorem condJump_along (t l : Label) (o : Stmt) :
    Along f a (Stmt.rename f) (condJump x (.label t) (.label l) (.stmt o))
      (condJump (Operand.rename f x) (.label t) (.label l) (.stmt o)) := by
  refine .bind (.ofExcept (asExpr_rename f _ x)) fun c => ?_
  refine .bind (g := id) (.ofExcept rfl) fun t => ?_
  refine .bind (g := id) (.ofExcept rfl) fun l => ?_
  refine .bind (g := id) (.ofExcept rfl) fun o => ?_
  exact .bind (.fresh hf) fun id => .pure rfl

theorem undeclaration_along : Along f a (Stmt.rename f) (undeclaration x)
    (undeclaration (Operand.rename f x)) := by
  refine .bind (.ofExcept (asIdentifier_rename f _ x)) fun l => ?_
  exact .bind (.fresh hf) fun id => .pure rfl

end Builders

end Build

/-! ## Replacing a node -/

section Replace

variable {a : Nat} (target : NodeId) (repl : Operand)

/-- Replacing in a list of expressions commutes with renaming if it does in each of them. -/
private theorem Expr.replaceList?_along {es : List Expr}
    (ih : ∀ e ∈ es, Build.Along f a (Option.map (Operand.rename f)) (e.replace? target repl)
      ((e.rename f).replace? (f target) (Operand.rename f repl))) :
    Build.Along f a (Option.map (List.map (Operand.rename f)))
      (Expr.replaceList? target repl es)
      (Expr.replaceList? (f target) (Operand.rename f repl) (es.map (Expr.rename f))) := by
  induction es with
  | nil => exact .pure rfl
  | cons e es ihes =>
    have he := ih e (List.mem_cons_self ..)
    have hes := ihes fun e' he' => ih e' (List.mem_cons_of_mem _ he')
    rw [List.map_cons, Expr.replaceList?, Expr.replaceList?]
    refine .orElse he (fun e' => .pure ?_) (.orElse hes (fun es' => .pure ?_) (.pure rfl))
    · rw [Option.map_some, List.map_cons, Operand.map_expr_rename]
    · rw [Option.map_some, List.map_cons, Operand.expr_rename]

private theorem replacedExpr_along {x y : Build NodeError Expr}
    (h : Build.Along f a (Expr.rename f) x y) :
    Build.Along f a (Option.map (Operand.rename f)) (do return some (Operand.expr (← x)))
      (do return some (Operand.expr (← y))) :=
  .bind h fun e => .pure (congrArg some (Operand.expr_rename f e))

private theorem replacedStmt_along {x y : Build NodeError Stmt}
    (h : Build.Along f a (Stmt.rename f) x y) :
    Build.Along f a (Option.map (Operand.rename f)) (do return some (Operand.stmt (← x)))
      (do return some (Operand.stmt (← y))) :=
  .bind h fun _ => .pure rfl

/-- Replacing a node in a renamed expression. -/
theorem Expr.replace?_along (h : Faithful f) (hf : Shifts a f) (e : Expr) :
    Build.Along f a (Option.map (Operand.rename f)) (e.replace? target repl)
      ((e.rename f).replace? (f target) (Operand.rename f repl)) := by
  have hid : ∀ k : NodeId, f k = f target ↔ k = target := fun k => h.injective.eq_iff
  induction e using Expr.induct with
  | identifier i => exact .ite (hid i.id) (.pure rfl) (.pure rfl)
  | constant c => exact .ite (hid c.id) (.pure rfl) (.pure rfl)
  | binary id op l r ihl ihr =>
    rw [Expr.rename, Expr.replace?, Expr.replace?, Operand.expr_rename, Operand.expr_rename]
    refine .ite (hid id) (.pure rfl) (.orElse ihl (fun l' => ?_) (.orElse ihr (fun r' => ?_) ?_))
    · exact replacedExpr_along (Build.binary_along hf op l' (.expr r))
    · exact replacedExpr_along (Build.binary_along hf op (.expr l) r')
    · exact .pure rfl
  | assign id x v ih =>
    rw [Expr.rename, Expr.replace?, Expr.replace?, Operand.expr_rename]
    refine .ite (hid id) (.pure rfl) (.ite (hid x.id) ?_ (.orElse ih (fun v' => ?_) ?_))
    · exact replacedExpr_along (Build.assign_along hf repl (.expr v))
    · exact replacedExpr_along (Build.assign_along hf (.ident x) v')
    · exact .pure rfl
  | addAssign id x v ih =>
    rw [Expr.rename, Expr.replace?, Expr.replace?, Operand.expr_rename]
    refine .ite (hid id) (.pure rfl) (.ite (hid x.id) ?_ (.orElse ih (fun v' => ?_) ?_))
    · exact replacedExpr_along (Build.addAssign_along hf repl (.expr v))
    · exact replacedExpr_along (Build.addAssign_along hf (.ident x) v')
    · exact .pure rfl
  | increment id x =>
    rw [Expr.rename, Expr.replace?, Expr.replace?]
    refine .ite (hid id) (.pure rfl) (.ite (hid x.id) ?_ (.pure rfl))
    exact replacedExpr_along (Build.increment_along hf repl)
  | invoke id x args ih =>
    have hargs := Expr.replaceList?_along target repl ih
    rw [Expr.rename, Expr.renameAll_eq_map, Expr.replace?, Expr.replace?, Operand.map_expr_rename]
    refine .ite (hid id) (.pure rfl) (.ite (hid x.id) ?_ (.orElse hargs (fun args' => ?_) ?_))
    · exact replacedExpr_along (Build.invoke_along hf repl (args.map .expr))
    · exact replacedExpr_along (Build.invoke_along hf (.ident x) args')
    · exact .pure rfl
  | hole reserved =>
    rw [Expr.rename, Expr.replace?, Expr.replace?]
    refine .ite ?_ (.pure rfl) (.pure rfl)
    have hzero := hid 0
    rwa [h.zero] at hzero

/-- Replacing in an optional expression commutes with renaming. -/
private theorem Expr.replaceOption?_along (h : Faithful f) (hf : Shifts a f) (v : Option Expr) :
    Build.Along f a (Option.map (Operand.rename f)) (Expr.replaceOption? target repl v)
      (Expr.replaceOption? (f target) (Operand.rename f repl) (v.map (Expr.rename f))) := by
  cases v with
  | none => exact .pure rfl
  | some e => exact e.replace?_along target repl h hf

/-- Replacing in a list of statements commutes with renaming if it does in each of them. -/
private theorem Stmt.replaceList?_along {ss : List Stmt}
    (ih : ∀ s ∈ ss, Build.Along f a (Option.map (Operand.rename f)) (s.replace? target repl)
      ((s.rename f).replace? (f target) (Operand.rename f repl))) :
    Build.Along f a (Option.map (List.map (Operand.rename f)))
      (Stmt.replaceList? target repl ss)
      (Stmt.replaceList? (f target) (Operand.rename f repl) (ss.map (Stmt.rename f))) := by
  induction ss with
  | nil => exact .pure rfl
  | cons s ss ihss =>
    have hs := ih s (List.mem_cons_self ..)
    have hss := ihss fun s' hs' => ih s' (List.mem_cons_of_mem _ hs')
    rw [List.map_cons, Stmt.replaceList?, Stmt.replaceList?]
    refine .orElse hs (fun s' => .pure ?_) (.orElse hss (fun ss' => .pure rfl) (.pure rfl))
    rw [Option.map_some, List.map_cons, List.map_map, List.map_map]
    rfl

/-- Replacing a node in a renamed statement. -/
theorem Stmt.replace?_along (h : Faithful f) (hf : Shifts a f) (s : Stmt) :
    Build.Along f a (Option.map (Operand.rename f)) (s.replace? target repl)
      ((s.rename f).replace? (f target) (Operand.rename f repl)) := by
  have hid : ∀ k : NodeId, f k = f target ↔ k = target := fun k => h.injective.eq_iff
  induction s using Stmt.induct with
  | expression id v =>
    have hv := Expr.replaceOption?_along target repl h hf v
    rw [Stmt.rename, Stmt.replace?, Stmt.replace?]
    refine .ite (hid id) (.pure rfl) (.orElse hv (fun v' => ?_) (.pure rfl))
    exact replacedStmt_along (Build.expression_along hf v')
  | declaration id t x v =>
    have hv := Expr.replaceOption?_along target repl h hf v
    rw [Stmt.rename, Stmt.replace?, Stmt.replace?, Operand.optional_rename]
    refine .ite (hid id) (.pure rfl) (.ite (hid x.id) ?_ (.orElse hv (fun v' => ?_) ?_))
    · exact replacedStmt_along (Build.declaration_along hf t repl (.optional v))
    · exact replacedStmt_along (Build.declaration_along hf t (.ident x) v')
    · exact .pure rfl
  | block id ss ih =>
    have hss := Stmt.replaceList?_along target repl ih
    rw [Stmt.rename, Stmt.renameAll_eq_map, Stmt.replace?, Stmt.replace?]
    refine .ite (hid id) (.pure rfl) (.orElse hss (fun ss' => ?_) (.pure rfl))
    exact replacedStmt_along (Build.block_along hf ss')
  | forLoop id i c u b ihi ihc ihu ihb =>
    rw [Stmt.rename, Stmt.replace?, Stmt.replace?]
    refine .ite (hid id) (.pure rfl) (.orElse ihi (fun i' => ?_) (.orElse ihc (fun c' => ?_)
      (.orElse ihu (fun u' => ?_) (.orElse ihb (fun b' => ?_) (.pure rfl)))))
    · exact replacedStmt_along (Build.forLoop_along hf i' (.stmt c) (.stmt u) (.stmt b))
    · exact replacedStmt_along (Build.forLoop_along hf (.stmt i) c' (.stmt u) (.stmt b))
    · exact replacedStmt_along (Build.forLoop_along hf (.stmt i) (.stmt c) u' (.stmt b))
    · exact replacedStmt_along (Build.forLoop_along hf (.stmt i) (.stmt c) (.stmt u) b')
  | ifThen id c b ih =>
    have hc := c.replace?_along target repl h hf
    rw [Stmt.rename, Stmt.replace?, Stmt.replace?, Operand.expr_rename]
    refine .ite (hid id) (.pure rfl) (.orElse hc (fun c' => ?_) (.orElse ih (fun b' => ?_) ?_))
    · exact replacedStmt_along (Build.ifThen_along hf c' (.stmt b))
    · exact replacedStmt_along (Build.ifThen_along hf (.expr c) b')
    · exact .pure rfl
  | label l => exact .ite (hid l.id) (.pure rfl) (.pure rfl)
  | jump id l => exact .ite (hid id) (.pure rfl) (.pure rfl)
  | condJump id c t l o =>
    have hc := c.replace?_along target repl h hf
    rw [Stmt.rename, Stmt.replace?, Stmt.replace?]
    refine .ite (hid id) (.pure rfl) (.orElse hc (fun c' => ?_) (.pure rfl))
    exact replacedStmt_along (Build.condJump_along hf c' t l o)
  | undeclaration id x =>
    rw [Stmt.rename, Stmt.replace?, Stmt.replace?]
    refine .ite (hid id) (.pure rfl) (.ite (hid x.id) ?_ (.pure rfl))
    exact replacedStmt_along (Build.undeclaration_along hf repl)

/-- Substitution in a renamed tree. -/
theorem Operand.substitute_along (h : Faithful f) (hf : Shifts a f) (root target repl : Operand) :
    Build.Along f a (Operand.rename f) (Operand.substitute root target repl)
      (Operand.substitute (Operand.rename f root) (Operand.rename f target)
        (Operand.rename f repl)) := by
  cases root with
  | filled n =>
    cases target with
    | filled t =>
      have hreplace : Build.Along f a (Option.map (Operand.rename f)) (n.replace? t.id repl)
          ((n.rename f).replace? (t.rename f).id (Operand.rename f repl)) := by
        rw [Node.id_rename h]
        cases n with
        | expr e => exact e.replace?_along t.id repl h hf
        | stmt s => exact s.replace?_along t.id repl h hf
      refine .ite ?_ (.pure rfl) (.bind hreplace fun u => ?_)
      · exact iff_of_eq (congrArg (· = true) (Operand.same_rename h repl (.filled t)))
      · cases u <;> exact .pure rfl
    | _ => exact .pure rfl
  | _ => exact .pure rfl

/-- Replacing in a statement of the program commutes with renaming. -/
theorem substituteTop_along (h : Faithful f) (hf : Shifts a f) (target repl : Operand)
    (s : Slot Stmt) :
    Build.Along f a (Slot.map (Stmt.rename f)) (substituteTop target repl s)
      (substituteTop (Operand.rename f target) (Operand.rename f repl)
        (s.map (Stmt.rename f))) := by
  have hroot : (s.map (Stmt.rename f)).map Node.stmt = Operand.rename f (s.map .stmt) := by
    cases s <;> rfl
  unfold substituteTop
  rw [hroot]
  refine .bind (Operand.substitute_along h hf (s.map .stmt) target repl) fun u => ?_
  rcases u with - | v | e | s'
  · exact .throw _
  · refine .ite Iff.rfl (.pure rfl) ?_
    cases v <;> exact .throw _
  · have hkind : (e.rename f).kind = e.kind := Node.kind_rename f (.expr e)
    change Build.Along f a _ _ (throw (NodeError.topLevel (e.rename f).kind))
    rw [hkind]
    exact .throw _
  · exact .pure rfl

end Replace

/-- A computation on each member of a list runs along if it does on every member. -/
theorem Build.Along.mapM {ε α β γ δ : Type} {a : Nat} {g : γ → δ} {k : α → β}
    {p : α → Build ε γ} {q : β → Build ε δ} (h : ∀ u, Build.Along f a g (p u) (q (k u)))
    (us : List α) : Build.Along f a (List.map g) (us.mapM p) ((us.map k).mapM q) := by
  induction us with
  | nil => exact .pure rfl
  | cons u us ih =>
    rw [List.map_cons, List.mapM_cons, List.mapM_cons]
    exact .bind (h u) fun v => .bind ih fun vs => .pure rfl

/-! ## The text of renamed trees -/

/-- A fragment of the renamed node. -/
def Fragment.rename (f : Nat → Nat) (frag : Fragment) : Fragment :=
  { frag with owner := frag.owner.map (Node.rename f) }

/-- Dropping the semicolon commutes with renaming. -/
theorem Fragment.dropSemicolon_rename (f : Nat → Nat) (frags : List Fragment) :
    dropSemicolon (frags.map (Fragment.rename f)) =
      (dropSemicolon frags).map (Fragment.rename f) := by
  unfold dropSemicolon
  rw [List.getLast?_map]
  cases frags.getLast? with
  | none => rfl
  | some frag =>
    simp only [Option.map_some, Fragment.rename]
    split
    · rw [List.map_dropLast]
    · rfl

private theorem Expr.moreFragments_rename (separator : Fragment) {es : List Expr}
    (ih : ∀ e ∈ es, (e.rename f).fragments = e.fragments.map (Fragment.rename f)) :
    Expr.moreFragments (separator.rename f) (es.map (Expr.rename f)) =
      (Expr.moreFragments separator es).map (Fragment.rename f) := by
  induction es with
  | nil => rfl
  | cons e es ihes =>
    have he := ih e (List.mem_cons_self ..)
    have hes := ihes fun e' he' => ih e' (List.mem_cons_of_mem _ he')
    simp only [List.map_cons, Expr.moreFragments, List.map_append, he, hes]

theorem Fragment.rename_ofExpr (f : Nat → Nat) (text : String) (e : Expr) :
    (Fragment.ofExpr text e).rename f = .ofExpr text (e.rename f) := rfl

theorem Fragment.rename_ofStmt (f : Nat → Nat) (text : String) (s : Stmt) :
    (Fragment.ofStmt text s).rename f = .ofStmt text (s.rename f) := rfl

theorem Identifier.fragment_rename (f : Nat → Nat) (i : Identifier) :
    (i.rename f).fragment = i.fragment.rename f := rfl

/-- The text of a renamed expression. -/
theorem Expr.fragments_rename (f : Nat → Nat) (e : Expr) :
    (e.rename f).fragments = e.fragments.map (Fragment.rename f) := by
  induction e using Expr.induct with
  | invoke id x args ih =>
    cases args with
    | nil => rfl
    | cons e es =>
      have he := ih e (List.mem_cons_self ..)
      have hes := Expr.moreFragments_rename (.ofExpr ", " (.invoke id x (e :: es)))
        fun e' he' => ih e' (List.mem_cons_of_mem _ he')
      simp only [Fragment.rename_ofExpr, Expr.rename, Expr.renameAll, Expr.renameAll_eq_map] at hes
      simp only [Expr.rename, Expr.renameAll, Expr.renameAll_eq_map, Expr.fragments, List.map_cons,
        List.map_append, List.map_nil, he, hes, Fragment.rename_ofExpr, Identifier.fragment_rename]
  | constant c =>
    simp only [Expr.rename, Expr.fragments, Constant.fragments, Constant.rename]
    split <;> rfl
  | _ => simp_all [Expr.rename, Expr.fragments, Fragment.rename_ofExpr, Identifier.fragment_rename]

/-- The fragments of a renamed initial value are renamed. -/
theorem Expr.optionFragments_rename (f : Nat → Nat) (v : Option Expr) :
    Expr.optionFragments (v.map (Expr.rename f)) =
      (Expr.optionFragments v).map (Fragment.rename f) := by
  cases v with
  | none => rfl
  | some e => exact e.fragments_rename f

/-- Renaming keeps which statements are blocks. -/
theorem Stmt.isBlock_rename (f : Nat → Nat) (s : Stmt) : (s.rename f).isBlock = s.isBlock := by
  cases s <;> rfl

/-- What closes a header is renamed with its owner. -/
theorem Stmt.closeHeader_rename (f : Nat → Nat) (b : Stmt) (depth : Nat) (owner : Stmt) :
    (b.rename f).closeHeader depth (owner.rename f) = (b.closeHeader depth owner).rename f := by
  simp only [Stmt.closeHeader, Stmt.isBlock_rename, Fragment.rename_ofStmt]

private theorem Stmt.moreFragments_rename (depth : Nat) (separator : Fragment) {ss : List Stmt}
    (ih : ∀ s ∈ ss, ∀ depth, (s.rename f).fragments depth =
      (s.fragments depth).map (Fragment.rename f)) :
    Stmt.moreFragments depth (separator.rename f) (ss.map (Stmt.rename f)) =
      (Stmt.moreFragments depth separator ss).map (Fragment.rename f) := by
  induction ss with
  | nil => rfl
  | cons s ss ihss =>
    have hs := ih s (List.mem_cons_self ..) depth
    have hss := ihss fun s' hs' => ih s' (List.mem_cons_of_mem _ hs')
    simp only [List.map_cons, Stmt.moreFragments, List.map_append, hs, hss]

/-- The text of a renamed statement. -/
theorem Stmt.fragments_rename (f : Nat → Nat) (s : Stmt) (depth : Nat) :
    (s.rename f).fragments depth = (s.fragments depth).map (Fragment.rename f) := by
  induction s using Stmt.induct generalizing depth with
  | expression id v =>
    simp only [Stmt.rename, Stmt.fragments, Expr.optionFragments_rename, List.map_append,
      List.map_cons, List.map_nil, Fragment.rename_ofStmt]
  | declaration id t x v =>
    cases v with
    | none => rfl
    | some e =>
      simp only [Stmt.rename, Stmt.fragments, Option.map_some, Expr.fragments_rename,
        List.map_append, List.map_cons, List.map_nil, Fragment.rename_ofStmt,
        Identifier.fragment_rename]
  | block id ss ih =>
    cases ss with
    | nil => rfl
    | cons s ss =>
      have hs := ih s (List.mem_cons_self ..) (depth + 1)
      have hss := Stmt.moreFragments_rename (depth + 1)
        (.ofStmt ("\n" ++ Fragment.indentation (depth + 1)) (.block id (s :: ss)))
        fun s' hs' => ih s' (List.mem_cons_of_mem _ hs')
      simp only [Fragment.rename_ofStmt, Stmt.rename, Stmt.renameAll, Stmt.renameAll_eq_map] at hss
      simp only [Stmt.rename, Stmt.renameAll, Stmt.renameAll_eq_map, Stmt.fragments, List.map_cons,
        List.map_append, List.map_nil, hs, hss, Fragment.rename_ofStmt]
  | forLoop id i c u b ihi ihc ihu ihb =>
    simp only [Stmt.rename, Stmt.fragments, Stmt.bodyDepth, Stmt.isBlock_rename, ihi, ihc, ihu, ihb,
      Fragment.dropSemicolon_rename, List.map_append, List.map_cons, Fragment.rename_ofStmt,
      ← Stmt.closeHeader_rename]
  | ifThen id c b ih =>
    simp only [Stmt.rename, Stmt.fragments, Stmt.bodyDepth, Stmt.isBlock_rename, ih,
      Expr.fragments_rename, List.map_append, List.map_cons, Fragment.rename_ofStmt,
      ← Stmt.closeHeader_rename]
  | label l => rfl
  | jump id l => rfl
  | condJump id c t g o =>
    simp only [Stmt.rename, Stmt.fragments, Expr.fragments_rename, List.map_append, List.map_cons,
      List.map_nil, Fragment.rename_ofStmt]
  | undeclaration id x => rfl

/-- Renaming keeps what stands in the way of printing a node. -/
theorem Node.obstacle?_rename (f : Nat → Nat) (n : Node) :
    (n.rename f).obstacle? = n.obstacle? := by
  have reserved : ∀ e : Expr, (e.rename f).isReserved = e.isReserved := by
    intro e
    cases e <;> rfl
  rcases n with e | s
  · cases e with
    | binary id op l r => simp only [Node.rename, Expr.rename, Node.obstacle?, reserved]
    | _ => rfl
  · rfl

/-- What is printed of a renamed operand. -/
theorem Operand.fragments_rename (f : Nat → Nat) (x : Operand) :
    Operand.fragments (Operand.rename f x) =
      (Operand.fragments x).map (List.map (Fragment.rename f)) := by
  cases x with
  | filled n =>
    have htext : (n.rename f).fragments = n.fragments.map (Fragment.rename f) := by
      cases n with
      | expr e => exact e.fragments_rename f
      | stmt s => exact s.fragments_rename f 0
    have hobstacle : (n.rename f).nodes.findSome? Node.obstacle? =
        n.nodes.findSome? Node.obstacle? := by
      rw [Node.nodes_rename, List.findSome?_map]
      exact congrArg (fun g => n.nodes.findSome? g) (funext (Node.obstacle?_rename f))
    change (n.rename f).printed = n.printed.map _
    simp only [Node.printed, htext, hobstacle]
    split <;> rfl
  | _ => rfl

/-- The text of renamed places for statements. -/
theorem renderSlots_rename (f : Nat → Nat) (tree : List (Slot Stmt)) :
    renderSlots (tree.map (Slot.map (Stmt.rename f))) =
      (renderSlots tree).map (List.map (Fragment.rename f)) := by
  have hslot : ∀ s : Slot Stmt, Operand.fragments ((s.map (Stmt.rename f)).map .stmt) =
      (Operand.fragments (s.map .stmt)).map (List.map (Fragment.rename f)) := by
    intro s
    rw [← Operand.fragments_rename]
    cases s <;> rfl
  have hparts : (tree.map (Slot.map (Stmt.rename f))).mapM
      (fun s => Operand.fragments (s.map .stmt)) =
        (tree.mapM fun s => Operand.fragments (s.map .stmt)).map
          (List.map (List.map (Fragment.rename f))) :=
    mapM_rename (q := fun s : Slot Stmt => Operand.fragments (s.map .stmt)) hslot tree
  unfold renderSlots
  rw [hparts]
  cases tree.mapM fun s => Operand.fragments (s.map .stmt) with
  | error e => rfl
  | ok parts =>
    refine congrArg Except.ok ?_
    rw [List.flatMap_map, List.map_flatMap]
    refine List.flatMap_congr fun part _ => ?_
    rw [List.map_append]
    rfl

/-! ## Tokens and ranges of renamed texts -/

/-- Renaming keeps the tokens of a fragment. -/
theorem Fragment.tokens_rename (f : Nat → Nat) (frag : Fragment) :
    (frag.rename f).tokens = frag.tokens := by
  have hcore : ∀ core, Token.tagCore core (frag.owner.map (Node.rename f)) =
      Token.tagCore core frag.owner := by
    intro core
    rcases frag.owner with - | v | e | s
    · rfl
    · rfl
    · cases e <;> rfl
    · cases s <;> rfl
  simp only [Fragment.tokens, Fragment.rename, hcore]

/-- Renaming keeps the tokens of fragments. -/
@[simp] theorem tagTokens_rename (f : Nat → Nat) (frags : List Fragment) :
    tagTokens (frags.map (Fragment.rename f)) = tagTokens frags := by
  rw [tagTokens, List.flatMap_map]
  exact List.flatMap_congr fun frag _ => frag.tokens_rename f

/-- Renaming keeps the tokens of a range. -/
theorem tokenRange_rename (f : Nat → Nat) (r : Range) (frags : List Fragment) :
    tokenRange r (frags.map (Fragment.rename f)) = tokenRange r frags := by
  simp only [tokenRange, Range.slice, ← List.map_take, ← List.map_drop, tagTokens_rename]

/-- Renaming keeps which fragments some nodes own. -/
theorem Fragment.ownedBy_rename (h : Faithful f) (nodes : List Node) (frag : Fragment) :
    (frag.rename f).ownedBy (nodes.map (Node.rename f)) = frag.ownedBy nodes := by
  unfold Fragment.ownedBy Fragment.rename
  cases frag.owner with
  | filled n => simp [List.any_map, Function.comp_def, Node.same_rename h]
  | _ => rfl

/-- The anchors of a renamed node are renamed. -/
theorem anchors_rename (f : Nat → Nat) (n : Node) :
    anchors (n.rename f) = (anchors n).map (Node.rename f) := by
  have hfilter : (n.rename f).nodes.filter (!·.isIdentifier) =
      (n.nodes.filter (!·.isIdentifier)).map (Node.rename f) := by
    rw [Node.nodes_rename, List.filter_map]
    refine congrArg _ (List.filter_congr fun m _ => ?_)
    rcases m with e | s
    · cases e <;> rfl
    · rfl
  unfold anchors
  rw [hfilter]
  cases n.nodes.filter (!·.isIdentifier) <;> rfl

/-- Renaming keeps which fragments anchor a range. -/
theorem Fragment.isAnchor_rename (h : Faithful f) (x : Operand) (frag : Fragment) :
    Fragment.isAnchor (Operand.rename f x) (frag.rename f) = Fragment.isAnchor x frag := by
  cases x with
  | filled n =>
    change (frag.rename f).ownedBy (anchors (n.rename f)) = frag.ownedBy (anchors n)
    rw [anchors_rename, Fragment.ownedBy_rename h]
  | empty => exact Operand.same_rename h frag.owner .empty
  | vacant v => exact Operand.same_rename h frag.owner (.vacant v)

theorem Operand.nodes_rename (f : Nat → Nat) (x : Operand) :
    (Operand.rename f x).nodes = x.nodes.map (Node.rename f) := by
  cases x with
  | filled n => exact n.nodes_rename f
  | _ => rfl

/-- A renamed node is found where the node is found. -/
theorem findRangeWithin_rename (h : Faithful f) (frags : List Fragment) (x : Operand)
    (within : Range) :
    findRangeWithin (frags.map (Fragment.rename f)) (Operand.rename f x) within =
      findRangeWithin frags x within := by
  have hanchor : Fragment.isAnchor (Operand.rename f x) ∘ Fragment.rename f =
      Fragment.isAnchor x := funext fun frag => frag.isAnchor_rename h x
  have howned : Fragment.ownedBy (Operand.rename f x).nodes ∘ Fragment.rename f =
      Fragment.ownedBy x.nodes := by
    rw [Operand.nodes_rename]
    exact funext fun frag => frag.ownedBy_rename h x.nodes
  cases x with
  | empty => rfl
  | vacant v =>
    change findRangeWithin _ (.vacant v) _ = _
    simp only [Operand.rename, Slot.map_vacant] at hanchor howned
    simp only [findRangeWithin, Range.slice, List.length_map, ← List.map_drop, ← List.map_take,
      List.findIdx?_map, hanchor, howned, ← List.map_reverse, List.takeWhile_map]
  | filled n =>
    change findRangeWithin _ (.filled (n.rename f)) _ = _
    simp only [Operand.rename, Slot.map_filled] at hanchor howned
    simp only [findRangeWithin, Range.slice, List.length_map, ← List.map_drop, ← List.map_take,
      List.findIdx?_map, hanchor, howned, ← List.map_reverse, List.takeWhile_map]

/-- The view of a renamed text. -/
theorem View.ofFragments_rename (h : Faithful f) (frags : List Fragment) (repl focus : Operand) :
    View.ofFragments (frags.map (Fragment.rename f)) (Operand.rename f repl)
      (Operand.rename f focus) = View.ofFragments frags repl focus := by
  simp only [View.ofFragments, findRange, List.length_map, findRangeWithin_rename h,
    tagTokens_rename, tokenRange_rename]

/-! ## The part reduced next -/

private theorem Expr.redexArgs_rename {es : List Expr}
    (ih : ∀ e ∈ es, (e.rename f).redex = e.redex.rename f) :
    Expr.redexArgs (es.map (Expr.rename f)) = (Expr.redexArgs es).map (Expr.rename f) := by
  induction es with
  | nil => rfl
  | cons e es ihes =>
    have he := ih e (List.mem_cons_self ..)
    have hes := ihes fun e' he' => ih e' (List.mem_cons_of_mem _ he')
    simp only [List.map_cons, Expr.redexArgs, Expr.constant?_rename]
    cases e.constant? with
    | none => exact congrArg some he
    | some c => exact hes

/-- The part of a renamed expression that is reduced next. -/
theorem Expr.redex_rename (f : Nat → Nat) (e : Expr) : (e.rename f).redex = e.redex.rename f := by
  induction e using Expr.induct with
  | binary id op l r ihl ihr =>
    simp only [Expr.rename, Expr.redex, Expr.constant?_rename]
    cases l.constant? with
    | none => exact ihl
    | some c =>
      simp only [Option.map_some, Constant.rename]
      split
      · rfl
      · cases r.constant? with
        | none => exact ihr
        | some d => rfl
  | assign id x v ih | addAssign id x v ih =>
    simp only [Expr.rename, Expr.redex, Expr.constant?_rename]
    cases v.constant? with
    | none => exact ih
    | some c => rfl
  | invoke id x args ih =>
    simp only [Expr.rename, Expr.renameAll_eq_map, Expr.redex, Expr.redexArgs_rename ih]
    cases Expr.redexArgs args with
    | none => simp only [Option.map_none, Option.getD_none, Expr.rename, Expr.renameAll_eq_map]
    | some e => rfl
  | _ => rfl

/-- The redex of a renamed expression is renamed, if there is one. -/
theorem Expr.redex?_rename (f : Nat → Nat) (e : Expr) :
    (e.rename f).redex? = e.redex?.map (Node.rename f) := by
  simp only [Expr.redex?, Expr.constant?_rename, Expr.redex_rename]
  cases e.constant? <;> rfl

theorem Stmt.redex_rename (f : Nat → Nat) (s : Stmt) : (s.rename f).redex = s.redex.rename f := by
  cases s with
  | expression _ v | declaration _ _ _ v =>
    rcases v with - | e
    · rfl
    · simp only [Stmt.rename, Stmt.redex, Option.map_some, Option.bind_some, Expr.redex?_rename]
      cases e.redex? <;> rfl
  | condJump id c t g o =>
    simp only [Stmt.rename, Stmt.redex, Expr.redex?_rename]
    cases c.redex? <;> rfl
  | _ => rfl

/-- What is marked in a renamed statement is renamed. -/
theorem Operand.redex_rename (f : Nat → Nat) (s : Stmt) :
    Operand.redex (.filled (.stmt (s.rename f))) =
      (Operand.redex (.filled (.stmt s))).map (Operand.rename f) := by
  have hnode : ∀ n : Node, Operand.node (n.rename f) = Operand.rename f (.node n) := by
    intro n
    cases n with
    | expr e => exact Operand.expr_rename f e
    | stmt s => rfl
  have hreached : ∀ x : Operand,
      (Operand.rename f x).reached = x.reached.map (Operand.rename f) := by
    intro x
    cases x with
    | vacant v => cases v <;> rfl
    | _ => rfl
  simp only [Operand.redex, Node.redex, Stmt.redex_rename, hnode, hreached]

/-! ## The view of a renamed statement -/

/-- What is replaced, and by what, with identities renamed. -/
def Replacement.rename (f : Nat → Nat) (r : Replacement) : Replacement :=
  ⟨Operand.rename f r.target, Operand.rename f r.repl⟩

/-- What a flat conditional jump stands for is its condition. -/
private theorem replacementFor_condJump {id : NodeId} {c : Expr} {t g : Label} {o : Stmt}
    (h : o.condition? = some c) (active : Operand) :
    replacementFor (.filled (.condJump id c t g o)) active =
      match active with
      | .filled (.stmt (.condJump _ c' _ _ _)) => .ok ⟨.expr c, .expr c'⟩
      | .vacant .condJump => .error .vacancy
      | _ => .ok ⟨.expr c, .expr c⟩ := by
  cases o with
  | ifThen k c' b =>
    cases h
    rfl
  | expression k v =>
    cases h
    rfl
  | _ => cases h

/-- What a kept statement stands for is kept, and replaced by what the renamed active statement
stands for. -/
theorem replacementFor_rename {st : Stmt} (hst : st.rename f = st) (hflat : st.Flat)
    (active : Operand) :
    replacementFor (.filled st) (Operand.rename f active) =
      (replacementFor (.filled st) active).map (Replacement.rename f) := by
  have plain : ∀ x, (.ok ⟨.stmt st, Operand.rename f x⟩ : Except NodeError Replacement) =
      (Except.ok ⟨.stmt st, x⟩).map (Replacement.rename f) := by
    intro x
    have hkept : Operand.rename f (.stmt st) = .stmt st := congrArg Operand.stmt hst
    simp only [Except.map, Replacement.rename, hkept]
  cases st with
  | condJump id c t g o =>
    have hc : Operand.rename f (.expr c) = .expr c := by
      rw [← Operand.expr_rename, (Stmt.condJump.inj hst).2.1]
    have shown : ∀ d : Expr, (.ok ⟨.expr c, .expr (d.rename f)⟩ : Except NodeError Replacement) =
        (Except.ok ⟨.expr c, .expr d⟩).map (Replacement.rename f) := by
      intro d
      simp only [Except.map, Replacement.rename, hc, Operand.expr_rename]
    have own : (.ok ⟨.expr c, .expr c⟩ : Except NodeError Replacement) =
        (Except.ok ⟨.expr c, .expr c⟩).map (Replacement.rename f) := by
      simp only [Except.map, Replacement.rename, hc]
    rw [replacementFor_condJump hflat, replacementFor_condJump hflat]
    rcases active with - | v | e | s
    · exact own
    · cases v with
      | condJump => rfl
      | _ => exact own
    · exact own
    · cases s with
      | condJump id' d t' g' o' => exact shown d
      | _ => exact own
  | _ => exact plain active

/-- Renaming keeps what an operand contains. -/
theorem Operand.contains_rename (h : Faithful f) (x y : Operand) :
    Operand.contains (Operand.rename f x) (Operand.rename f y) = Operand.contains x y := by
  cases y with
  | filled n =>
    cases x with
    | filled m =>
      simp only [Operand.contains, Operand.rename, Operand.nodes, Slot.map_filled, Slot.get?_filled,
        Node.nodes_rename, List.any_map, Function.comp_def, Node.same_rename h]
    | _ => rfl
  | _ => rfl

/-- The view of a kept tree for a renamed active statement. -/
theorem highlight_along {a : Nat} {tree : List Stmt} {st : Stmt} (h : Faithful f)
    (hf : Shifts a f) (htree : ∀ s ∈ tree, s.rename f = s) (hst : st.rename f = st)
    (hflat : st.Flat) (active focus : Operand) :
    Build.Along f a id (highlight tree (.filled st) active focus)
      (highlight tree (.filled st) (Operand.rename f active) (Operand.rename f focus)) := by
  have hslots : (tree.map Slot.filled).map (Slot.map (Stmt.rename f)) = tree.map .filled := by
    rw [List.map_map]
    exact List.map_congr_left fun s hs => congrArg Slot.filled (htree s hs)
  unfold highlight highlightSlots
  refine .bind (.ofExcept (replacementFor_rename hst hflat active)) fun r => ?_
  have hfocus : (if (Operand.rename f focus).same (Operand.rename f active) then
        Operand.rename f r.repl else Operand.rename f focus) =
      Operand.rename f (if focus.same active then r.repl else focus) := by
    rw [Operand.same_rename h]
    split <;> rfl
  have hcontains : ((tree.map Slot.filled).any fun s =>
        Operand.contains (s.map .stmt) (Operand.rename f r.target)) = true ↔
      ((tree.map Slot.filled).any fun s => Operand.contains (s.map .stmt) r.target) = true := by
    simp only [List.any_map, List.any_eq_true]
    refine exists_congr fun s => and_congr_right fun hs => ?_
    have hkept : Operand.rename f (.stmt s) = .stmt s := congrArg Operand.stmt (htree s hs)
    change Operand.contains (.stmt s) _ = true ↔ Operand.contains (.stmt s) _ = true
    rw [← Operand.contains_rename h (.stmt s) r.target, hkept]
  refine .ite hcontains ?_ ?_
  · have hsub := Build.Along.mapM (substituteTop_along h hf r.target r.repl) (tree.map .filled)
    rw [hslots] at hsub
    refine .bind hsub fun evaluated => ?_
    refine .bind (.ofExcept (renderSlots_rename f evaluated)) fun frags => .pure ?_
    change View.ofFragments _ (Operand.rename f r.repl)
      (if _ then Operand.rename f r.repl else _) = _
    rw [hfocus]
    exact View.ofFragments_rename h frags r.repl _
  · refine .bind (g := id) (.ofExcept ?_) fun frags => .pure rfl
    cases renderSlots (tree.map .filled) <;> rfl

namespace State

variable {base : Nat} {tree code : List Stmt} {r t : State}

/-- States of which one mirrors the other have the same view. -/
theorem Mirrors.view_eq (hm : r.Mirrors base f t) (hp : Placed code r)
    (hcode : ∀ k ∈ Stmt.listIds code, k < base) (hflat : ∀ st ∈ code, st.Flat)
    (htree : Stmt.AllChecked tree) (hids : ∀ k ∈ Stmt.listIds tree, k < base) :
    t.view tree = r.view tree := by
  obtain ⟨program, pc, active, env₀, out₀, sup₀⟩ := t
  obtain ⟨ha, hbase, rfl, rfl, rfl, henv, rfl, hb⟩ := hm
  cases hp with
  | ended env out sup =>
    exact (view_empty htree ended_current rfl).trans (view_empty htree ended_current rfl).symm
  | @standing i st st' env out sup hst hl hpr hc =>
    have hmem := List.mem_of_getElem? hst
    have hold : ∀ {ss : List Stmt}, (∀ k ∈ Stmt.listIds ss, k < base) →
        ∀ s ∈ ss, s.rename f = s := by
      intro ss hss s hs
      exact Stmt.rename_eq_self fun k hk => ha.fixed k (hss k (Stmt.mem_listIds.2 ⟨s, hs, hk⟩))
    have hzero : f 0 = 0 := by
      have hid : st.id ∈ st.ids := List.mem_of_head? st.head?_ids
      have hlt := hcode _ (Stmt.mem_listIds.2 ⟨st, hmem, hid⟩)
      exact ha.fixed 0 (Nat.lt_of_le_of_lt (Nat.zero_le _) hlt)
    have hfaithful : Faithful f := ⟨ha.injective, hzero⟩
    have hview : ∀ focus, Build.Along f sup.node id
        (highlight tree (.filled st) (.filled (.stmt st')) focus)
        (highlight tree (.filled st) (.filled (.stmt (st'.rename f))) (Operand.rename f focus)) :=
      highlight_along hfaithful ha.shifts (hold hids) (hold hcode st hmem) (hflat st hmem) _
    change (State.standing code i (st'.rename f) env₀ out sup₀).view tree = _
    unfold State.view
    rw [standing_current hst, standing_current hst]
    simp only [State.standing, Slot.map_filled, Operand.redex_rename f st']
    cases Operand.redex (.filled (.stmt st')) with
    | error e => rfl
    | ok focus =>
      rcases hview focus sup sup₀ (Nat.le_refl _) ha.apply_start.symm with
        ⟨e, hr, ht⟩ | ⟨v, s, s₀, hr, ht, -⟩
      all_goals simp only [Except.map, bind, Except.bind, hr, ht, id]

end State

end Stepwise
