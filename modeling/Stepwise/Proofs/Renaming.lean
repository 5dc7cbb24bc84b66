import Stepwise.Proofs.Shape
import Stepwise.Proofs.Identity

/-!
# Proofs - Renaming identities

Evaluation gives new identities to what it builds and never looks at them otherwise.
So when the identities of a state are renamed, in step with the identities that are
still to be given out, every step of the renamed state is the renamed step.

Main definitions:

- `Expr.rename` and `Stmt.rename`.  Labels that are jumped to and origins of conditional
  jumps are references and stay.
- `Aligned`, the renamings that keep old identities and go along with two supplies.

Main results:

- `Expr.Reduces.rename`: reductions of renamed expressions.
- `State.Mirrors.step`: steps of renamed states.
-/

namespace Stepwise

/-! ## Renamed trees -/

/-- A name under another identity. -/
def Identifier.rename (f : Nat → Nat) (i : Identifier) : Identifier := { i with id := f i.id }

/-- A constant under another identity. -/
def Constant.rename (f : Nat → Nat) (c : Constant) : Constant := { c with id := f c.id }

/-- A label under another identity. -/
def Label.rename (f : Nat → Nat) (l : Label) : Label := { l with id := f l.id }

mutual

/-- An expression with its identities renamed. -/
def Expr.rename (f : Nat → Nat) : Expr → Expr
  | .identifier i => .identifier (i.rename f)
  | .constant c => .constant (c.rename f)
  | .binary id op l r => .binary (f id) op (l.rename f) (r.rename f)
  | .assign id x v => .assign (f id) (x.rename f) (v.rename f)
  | .addAssign id x v => .addAssign (f id) (x.rename f) (v.rename f)
  | .increment id x => .increment (f id) (x.rename f)
  | .invoke id g args => .invoke (f id) (g.rename f) (Expr.renameAll f args)
  | .hole reserved => .hole reserved

/-- A list of expressions with their identities renamed. -/
def Expr.renameAll (f : Nat → Nat) : List Expr → List Expr
  | [] => []
  | e :: es => e.rename f :: Expr.renameAll f es

end

mutual

/-- A statement with its identities renamed.  What it refers to and does not hold keeps
its identity. -/
def Stmt.rename (f : Nat → Nat) : Stmt → Stmt
  | .expression id v => .expression (f id) (v.map (Expr.rename f))
  | .declaration id t x v => .declaration (f id) t (x.rename f) (v.map (Expr.rename f))
  | .block id ss => .block (f id) (Stmt.renameAll f ss)
  | .forLoop id i c u b =>
    .forLoop (f id) (i.rename f) (c.rename f) (u.rename f) (b.rename f)
  | .ifThen id c b => .ifThen (f id) (c.rename f) (b.rename f)
  | .label l => .label (l.rename f)
  | .jump id l => .jump (f id) l
  | .condJump id c t g o => .condJump (f id) (c.rename f) t g o
  | .undeclaration id x => .undeclaration (f id) (x.rename f)

/-- A list of statements with their identities renamed. -/
def Stmt.renameAll (f : Nat → Nat) : List Stmt → List Stmt
  | [] => []
  | s :: ss => s.rename f :: Stmt.renameAll f ss

end

/-- A node with its identities renamed. -/
def Node.rename (f : Nat → Nat) : Node → Node
  | .expr e => .expr (e.rename f)
  | .stmt s => .stmt (s.rename f)

section Trees

variable {f g : Nat → Nat} {e : Expr} {s : Stmt}

theorem Expr.renameAll_eq_map (f : Nat → Nat) (es : List Expr) :
    Expr.renameAll f es = es.map (Expr.rename f) := by
  induction es with
  | nil => rfl
  | cons e es ih => rw [Expr.renameAll, ih, List.map_cons]

theorem Stmt.renameAll_eq_map (f : Nat → Nat) (ss : List Stmt) :
    Stmt.renameAll f ss = ss.map (Stmt.rename f) := by
  induction ss with
  | nil => rfl
  | cons s ss ih => rw [Stmt.renameAll, ih, List.map_cons]

/-- Renaming forgets nothing but identities. -/
theorem Expr.shape_rename (f : Nat → Nat) (e : Expr) : (e.rename f).shape = e.shape := by
  induction e using Expr.induct with
  | invoke id g args ih =>
    simp only [Expr.rename, Expr.renameAll_eq_map, shape, shapes_eq_map, List.map_map,
      Identifier.rename, Identifier.shape]
    exact congrArg _ (List.map_congr_left ih)
  | _ => simp_all [Expr.rename, Identifier.rename, Constant.rename]

/-- The constant of a renamed expression is renamed. -/
theorem Expr.constant?_rename (f : Nat → Nat) (e : Expr) :
    (e.rename f).constant? = e.constant?.map (Constant.rename f) := by
  cases e <;> rfl

/-- The nodes of a renamed expression are the renamed nodes. -/
theorem Expr.nodes_rename (f : Nat → Nat) (e : Expr) :
    (e.rename f).nodes = e.nodes.map (Node.rename f) := by
  induction e using Expr.induct with
  | invoke id g args ih =>
    simp only [Expr.rename, Expr.renameAll_eq_map, Expr.nodes, Expr.listNodes_eq_flatMap,
      List.map_cons, List.flatMap_map, List.map_flatMap, Node.rename, Identifier.node]
    refine congrArg _ (congrArg _ ?_)
    exact List.flatMap_congr ih
  | _ => simp_all [Expr.rename, Expr.nodes, Node.rename, Identifier.node]

theorem Expr.optionNodes_rename (f : Nat → Nat) (v : Option Expr) :
    Expr.optionNodes (v.map (Expr.rename f)) = (Expr.optionNodes v).map (Node.rename f) := by
  cases v with
  | none => rfl
  | some e => exact e.nodes_rename f

/-- The nodes of a renamed statement are the renamed nodes. -/
theorem Stmt.nodes_rename (f : Nat → Nat) (s : Stmt) :
    (s.rename f).nodes = s.nodes.map (Node.rename f) := by
  induction s using Stmt.induct with
  | block id ss ih =>
    simp only [Stmt.rename, Stmt.renameAll_eq_map, Stmt.nodes, Stmt.listNodes_eq_flatMap,
      List.map_cons, List.flatMap_map, List.map_flatMap, Node.rename]
    exact congrArg _ (List.flatMap_congr ih)
  | _ => simp_all [Stmt.rename, Stmt.nodes, Node.rename, Identifier.node, Expr.nodes_rename,
      Expr.optionNodes_rename, Expr.rename]

/-- The nodes of a renamed node are renamed. -/
theorem Node.nodes_rename (f : Nat → Nat) (n : Node) :
    (n.rename f).nodes = n.nodes.map (Node.rename f) := by
  cases n with
  | expr e => exact e.nodes_rename f
  | stmt s => exact s.nodes_rename f

/-- Renaming keeps which expressions are checked. -/
theorem Expr.checked_rename {f : Nat → Nat} : (e.rename f).Checked ↔ e.Checked := by
  induction e using Expr.induct with
  | invoke id g args ih =>
    simp only [Expr.rename, Expr.renameAll_eq_map, Expr.Checked, Expr.allChecked_iff,
      List.forall_mem_map, Identifier.Checked, Identifier.rename]
    exact and_congr_right fun _ => forall₂_congr ih
  | _ => simp_all [Expr.rename, Identifier.Checked, Identifier.rename]

/-- Renamings that agree on the identities of an expression rename it alike. -/
theorem Expr.rename_congr (h : ∀ k ∈ e.ids, f k = g k) : e.rename f = e.rename g := by
  induction e using Expr.induct with
  | invoke id x args ih =>
    simp only [ids_invoke, List.mem_cons, List.mem_flatMap, forall_eq_or_imp] at h
    simp only [Expr.rename, Expr.renameAll_eq_map, Identifier.rename, h.1, h.2.1]
    congr 1
    exact List.map_congr_left fun e he => ih e he fun k hk => h.2.2 k ⟨e, he, hk⟩
  | _ => simp_all [Expr.rename, Identifier.rename, Constant.rename]

/-- Renamings that agree on the identities of a statement rename it alike. -/
theorem Stmt.rename_congr (h : ∀ k ∈ s.ids, f k = g k) : s.rename f = s.rename g := by
  have value : ∀ v : Option Expr, (∀ k ∈ Expr.optionIds v, f k = g k) →
      v.map (Expr.rename f) = v.map (Expr.rename g) := by
    intro v hv
    cases v with
    | none => rfl
    | some e => exact congrArg some (Expr.rename_congr hv)
  induction s using Stmt.induct with
  | expression id v =>
    simp only [ids_expression, List.mem_cons, forall_eq_or_imp] at h
    simp [Stmt.rename, h.1, value v h.2]
  | declaration id t x v =>
    simp only [ids_declaration, List.mem_cons, forall_eq_or_imp] at h
    simp [Stmt.rename, Identifier.rename, h.1, h.2.1, value v h.2.2]
  | block id ss ih =>
    simp only [ids_block, List.mem_cons, forall_eq_or_imp, Stmt.mem_listIds] at h
    simp only [Stmt.rename, Stmt.renameAll_eq_map, h.1]
    congr 1
    exact List.map_congr_left fun s hs => ih s hs fun k hk => h.2 k ⟨s, hs, hk⟩
  | forLoop id i c u b ihi ihc ihu ihb =>
    simp only [ids_forLoop, List.mem_cons, List.mem_append, or_imp, forall_and, forall_eq] at h
    simp [Stmt.rename, h.1, ihi h.2.1, ihc h.2.2.1, ihu h.2.2.2.1, ihb h.2.2.2.2]
  | ifThen id c b ih =>
    simp only [ids_ifThen, List.mem_cons, List.mem_append, or_imp, forall_and, forall_eq] at h
    simp [Stmt.rename, h.1, Expr.rename_congr h.2.1, ih h.2.2]
  | label l => simp_all [Stmt.rename, Label.rename]
  | jump id l => simp_all [Stmt.rename]
  | condJump id c t l o _ =>
    simp only [ids_condJump, List.mem_cons, forall_eq_or_imp] at h
    simp [Stmt.rename, h.1, Expr.rename_congr h.2]
  | undeclaration id x => simp_all [Stmt.rename, Identifier.rename]

/-- Renaming every identity to itself changes no expression. -/
theorem Expr.rename_id (e : Expr) : e.rename (fun k => k) = e := by
  induction e using Expr.induct with
  | invoke id x args ih =>
    simp only [Expr.rename, Expr.renameAll_eq_map, Identifier.rename]
    congr 1
    exact (List.map_congr_left ih).trans (List.map_id _)
  | _ => simp_all [Expr.rename, Identifier.rename, Constant.rename]

theorem Stmt.rename_id (s : Stmt) : s.rename (fun k => k) = s := by
  have value : ∀ v : Option Expr, v.map (Expr.rename fun k => k) = v := by
    intro v
    cases v with
    | none => rfl
    | some e => exact congrArg some e.rename_id
  induction s using Stmt.induct with
  | block id ss ih =>
    simp only [Stmt.rename, Stmt.renameAll_eq_map]
    congr 1
    exact (List.map_congr_left ih).trans (List.map_id _)
  | _ => simp_all [Stmt.rename, Identifier.rename, Label.rename, Expr.rename_id]

/-- A renaming that keeps the identities of a statement keeps the statement. -/
theorem Stmt.rename_eq_self (h : ∀ k ∈ s.ids, f k = k) : s.rename f = s :=
  (Stmt.rename_congr h).trans s.rename_id

end Trees

/-! ## Renamings that go along with a supply -/

/-- A renaming that goes up by one from `a` on. -/
def Shifts (a : Nat) (f : Nat → Nat) : Prop :=
  ∀ k, a ≤ k → f (k + 1) = f k + 1

/-- A renaming that keeps all identities below `base`, and takes the identities from `a` on
to those from `b` on. -/
structure Aligned (base a b : Nat) (f : Nat → Nat) : Prop where
  injective : Function.Injective f
  fixed : ∀ k < base, f k = k
  shift : ∀ j, f (a + j) = b + j

namespace Aligned

variable {base a b : Nat} {f : Nat → Nat}

/-- Equal supplies are aligned as they are. -/
theorem refl (base a : Nat) : Aligned base a a id :=
  ⟨Function.injective_id, fun _ _ => rfl, fun _ => rfl⟩

/-- An aligned renaming maps the next identity to the next one. -/
theorem apply_start (h : Aligned base a b f) : f a = b := h.shift 0

/-- An aligned renaming shifts the identities to come. -/
theorem shifts (h : Aligned base a b f) : Shifts a f := by
  intro k hk
  obtain ⟨j, rfl⟩ := Nat.exists_eq_add_of_le hk
  rw [h.shift, Nat.add_assoc, h.shift]
  omega

/-- What comes before `a` goes before `b`, because all from `b` on is taken. -/
theorem lt (h : Aligned base a b f) {k : Nat} (hk : k < a) : f k < b := by
  by_contra hge
  obtain ⟨j, hj⟩ := Nat.exists_eq_add_of_le (Nat.not_lt.1 hge)
  have heq : k = a + j := h.injective (by rw [hj, h.shift])
  omega

/-- More identities may be given out on both sides. -/
theorem advance {a' b' : Nat} (h : Aligned base a b f) (ha : a ≤ a') (hb : b' = f a') :
    Aligned base a' b' f := by
  refine ⟨h.injective, h.fixed, fun j => ?_⟩
  obtain ⟨i, rfl⟩ := Nat.exists_eq_add_of_le ha
  rw [hb, h.shift, Nat.add_assoc, h.shift]
  omega

/-- The second side may leave identities out. -/
theorem resupply (h : Aligned base a b f) (hbase : base ≤ a) {b' : Nat} (hb : b ≤ b') :
    ∃ g, Aligned base a b' g ∧ ∀ k < a, g k = f k := by
  refine ⟨fun k => if k < a then f k else b' + (k - a), ⟨?_, ?_, ?_⟩, ?_⟩
  · intro j k hjk
    have hlt : ∀ k < a, f k < b := fun k hk => h.lt hk
    by_cases hj : j < a <;> by_cases hk : k < a <;> simp only [hj, hk, ↓reduceIte] at hjk
    · exact h.injective hjk
    · have := hlt j hj
      omega
    · have := hlt k hk
      omega
    · omega
  · intro k hk
    have hlt : k < a := by omega
    simp only [hlt, ↓reduceIte]
    exact h.fixed k hk
  · intro j
    have hge : ¬ a + j < a := by omega
    simp only [hge, ↓reduceIte]
    omega
  · intro k hk
    simp [hk]

end Aligned

/-! ## Reductions of renamed expressions -/

namespace Expr

variable {env env₀ : Env} {e : Expr} {s s' s₀ : Supply} {x : Reduction} {err : EvalError}
  {f : Nat → Nat}

/-- The identities of what a reduction gives were given out before its end. -/
theorem Reduces.ids_lt (h : Reduces env e s x s') (hlt : ∀ k ∈ e.ids, k < s.node) :
    ∀ k ∈ x.expr.ids, k < s'.node := by
  have later : ∀ {k : Nat} {t : Supply}, k < t.node → k < t.next.node := Nat.lt_succ_of_lt
  induction h with
  | read | decided | apply | print =>
    intro k hk
    rw [List.mem_singleton.1 hk]
    exact Nat.lt_succ_self _
  | assign =>
    intro k hk
    exact later (hlt k (by simp_all))
  | add =>
    intro k hk
    rw [List.mem_singleton.1 hk]
    exact Nat.lt_add_of_pos_right Nat.two_pos
  | increment =>
    intro k hk
    rw [List.mem_singleton.1 hk]
    exact Nat.lt_succ_self _
  | left _ h ih =>
    have hs := h.supply_lt
    simp only [ids_binary, List.mem_cons, List.mem_append] at hlt ⊢
    rintro k (rfl | hk | hk)
    · exact Nat.lt_succ_self _
    · exact later (ih (fun k hk => hlt k (.inr (.inl hk))) k hk)
    · exact later (Nat.lt_trans (hlt k (.inr (.inr hk))) hs)
  | right _ _ h ih =>
    have hs := h.supply_lt
    simp only [ids_binary, List.mem_cons, List.mem_append] at hlt ⊢
    rintro k (rfl | hk | hk)
    · exact Nat.lt_succ_self _
    · exact later (Nat.lt_trans (hlt k (.inr (.inl hk))) hs)
    · exact later (ih (fun k hk => hlt k (.inr (.inr hk))) k hk)
  | assigned _ _ h ih | added _ _ h ih =>
    have hs := h.supply_lt
    simp only [ids_assign, ids_addAssign, List.mem_cons] at hlt ⊢
    rintro k (rfl | rfl | hk)
    · exact Nat.lt_succ_self _
    · exact later (Nat.lt_trans (hlt _ (.inr (.inl rfl))) hs)
    · exact later (ih (fun k hk => hlt k (.inr (.inr hk))) k hk)
  | argument _ _ h ih =>
    have hs := h.supply_lt
    simp only [ids_invoke, List.flatMap_append, List.flatMap_cons, List.mem_cons,
      List.mem_append] at hlt ⊢
    rintro k (rfl | rfl | hk | hk | hk)
    · exact Nat.lt_succ_self _
    · exact later (Nat.lt_trans (hlt _ (.inr (.inl rfl))) hs)
    · exact later (Nat.lt_trans (hlt k (.inr (.inr (.inl hk)))) hs)
    · exact later (ih (fun k hk => hlt k (.inr (.inr (.inr (.inl hk))))) k hk)
    · exact later (Nat.lt_trans (hlt k (.inr (.inr (.inr (.inr hk))))) hs)

/-- Renaming makes no constants. -/
theorem constant?_rename_eq_none (h : e.constant? = none) : (e.rename f).constant? = none := by
  rw [constant?_rename, h, Option.map_none]

/-- Renaming keeps the shapes of a list. -/
theorem map_shape_rename (f : Nat → Nat) (es : List Expr) :
    (es.map (Expr.rename f)).map shape = es.map shape := by
  rw [List.map_map]
  exact List.map_congr_left fun e _ => e.shape_rename f

/-- A constant under the next identity is renamed to one under the next identity. -/
theorem rename_fresh (f : Nat → Nat) {s₀ : Supply} (hs : s₀.node = f s.node) (v : Value) :
    (constant ⟨s.node, v⟩).rename f = constant ⟨s₀.node, v⟩ := by
  rw [hs]
  rfl

/-- A renamed expression reduces to the renamed result, if the renaming goes along with the
identities to come. -/
theorem Reduces.rename (h : Reduces env e s x s') (hf : Shifts s.node f)
    (henv : env₀.contents = env.contents) (hs : s₀.node = f s.node) :
    ∃ env₁ s₁, Reduces env₀ (e.rename f) s₀ ⟨x.expr.rename f, env₁, x.output⟩ s₁ ∧
      env₁.contents = x.env.contents ∧ s₁.node = f s'.node := by
  have hcontains := Env.contains_eq_of_contents henv
  have next : ∀ {t t₀ : Supply}, s.node ≤ t.node → t₀.node = f t.node →
      t₀.next.node = f t.next.node := by
    intro t t₀ hle ht
    exact (congrArg (· + 1) ht).trans (hf t.node hle).symm
  induction h generalizing s₀ with
  | read hfind =>
    obtain ⟨c₀, hfind₀, hvalue⟩ := Env.find?_congr henv.symm hfind
    refine ⟨env₀, s₀.next, ?_, henv, next (Nat.le_refl _) hs⟩
    rw [rename_fresh f hs, ← hvalue]
    exact .read hfind₀
  | left hl h ih =>
    obtain ⟨env₁, s₁, h₁, henv₁, hs₁⟩ := ih hf hs next
    refine ⟨env₁, s₁.next, ?_, henv₁, next (Nat.le_of_lt h.supply_lt) hs₁⟩
    simp only [Expr.rename, ← hs₁]
    exact .left (constant?_rename_eq_none hl) h₁
  | decided hop =>
    refine ⟨env₀, s₀.next, ?_, henv, next (Nat.le_refl _) hs⟩
    rw [rename_fresh f hs]
    exact .decided hop
  | @right id op a r s s' x hop hr h ih =>
    obtain ⟨env₁, s₁, h₁, henv₁, hs₁⟩ := ih hf hs next
    refine ⟨env₁, s₁.next, ?_, henv₁, next (Nat.le_of_lt h.supply_lt) hs₁⟩
    simp only [Expr.rename, ← hs₁]
    exact .right (a := a.rename f) hop (constant?_rename_eq_none hr) h₁
  | apply hop happly =>
    refine ⟨env₀, s₀.next, ?_, henv, next (Nat.le_refl _) hs⟩
    rw [rename_fresh f hs]
    exact .apply hop happly
  | @assigned id x v s s' y hx hv h ih =>
    obtain ⟨env₁, s₁, h₁, henv₁, hs₁⟩ := ih hf hs next
    refine ⟨env₁, s₁.next, ?_, henv₁, next (Nat.le_of_lt h.supply_lt) hs₁⟩
    simp only [Expr.rename, ← hs₁]
    exact .assigned (x := x.rename f) ((hcontains _).trans hx) (constant?_rename_eq_none hv) h₁
  | @assign id x c s hx hstore =>
    refine ⟨env₀.insert x.name ⟨s₀.node, c.value⟩, s₀.next, ?_, ?_, next (Nat.le_refl _) hs⟩
    · exact .assign (c := c.rename f) ((hcontains _).trans hx) hstore
    · simp [Env.contents_insert, henv]
  | @added id x v b s s' y hx hv h ih =>
    obtain ⟨env₁, s₁, h₁, henv₁, hs₁⟩ := ih hf hs next
    obtain ⟨b₀, hb₀, -⟩ := Env.find?_congr henv.symm hx
    refine ⟨env₁, s₁.next, ?_, henv₁, next (Nat.le_of_lt h.supply_lt) hs₁⟩
    simp only [Expr.rename, ← hs₁]
    exact .added (x := x.rename f) hb₀ (constant?_rename_eq_none hv) h₁
  | @add id x b c m n s hx hm hn =>
    obtain ⟨b₀, hb₀, hvalue⟩ := Env.find?_congr henv.symm hx
    have hs' := next (Nat.le_refl _) hs
    refine ⟨env₀.insert x.name ⟨s₀.next.node, .int (m + n)⟩, s₀.next.next, ?_, ?_,
      next (Nat.le_succ _) hs'⟩
    · rw [rename_fresh f hs]
      exact .add (c := c.rename f) hb₀ (hvalue ▸ hm) hn
    · simp [Env.contents_insert, henv]
  | @increment id x b n s hx hn =>
    obtain ⟨b₀, hb₀, hvalue⟩ := Env.find?_congr henv.symm hx
    have hs' := next (Nat.le_refl _) hs
    have hs'' := next (Nat.le_succ _) hs'
    refine ⟨env₀.insert x.name ⟨s₀.next.node, .int (n + 1)⟩, s₀.next.next.next, ?_, ?_,
      next (Nat.le_add_right _ 2) hs''⟩
    · rw [rename_fresh f hs'']
      exact .increment hb₀ (hvalue ▸ hn)
    · simp [Env.contents_insert, henv]
  | argument hdone hnone h ih =>
    obtain ⟨env₁, s₁, h₁, henv₁, hs₁⟩ := ih hf hs next
    refine ⟨env₁, s₁.next, ?_, henv₁, next (Nat.le_of_lt h.supply_lt) hs₁⟩
    simp only [Expr.rename, renameAll_eq_map, List.map_append, List.map_cons, ← hs₁]
    exact .argument (settled_congr (map_shape_rename f _) hdone) (constant?_rename_eq_none hnone) h₁
  | print hargs hname htext =>
    refine ⟨env₀, s₀.next, ?_, henv, next (Nat.le_refl _) hs⟩
    rw [rename_fresh f hs, Expr.rename, renameAll_eq_map]
    refine .print (settled_congr (map_shape_rename f _) hargs) hname ?_
    rwa [values_congr (map_shape_rename f _)]

/-- A renamed expression is stuck as the expression is. -/
theorem Blocked.rename (h : Blocked env e err) (henv : env₀.contents = env.contents) :
    Blocked env₀ (e.rename f) err :=
  h.alike (e.shape_rename f) henv

end Expr

/-! ## Steps of renamed states -/

/-- A frame with the identities of its names renamed. -/
def Frame.rename (f : Nat → Nat) : Frame → Frame
  | .expression => .expression
  | .declaration t x => .declaration t (x.rename f)
  | .condJump t g o => .condJump t g o

/-- A filled frame is renamed part by part. -/
theorem Frame.rename_fill (f : Nat → Nat) (frame : Frame) (id : NodeId) (e : Expr) :
    (frame.fill id e).rename f = (frame.rename f).fill (f id) (e.rename f) := by
  cases frame <;> rfl

/-- Renaming keeps the type that a frame declares. -/
theorem Frame.Declarable.rename {frame : Frame} (h : frame.Declarable) (f : Nat → Nat) :
    (frame.rename f).Declarable := by
  cases frame <;> exact h

/-- A frame that is filled again under a new identity holds identities given out before. -/
theorem Frame.ids_refill_lt {frame : Frame} {id a b : Nat} {e e' : Expr} (hab : a ≤ b)
    (h : ∀ k ∈ (frame.fill id e).ids, k < a) (he : ∀ k ∈ e'.ids, k < b) :
    ∀ k ∈ (frame.fill b e').ids, k < b + 1 := by
  rw [Frame.ids_fill] at h ⊢
  intro k hk
  simp only [List.mem_cons, List.mem_append, List.not_mem_nil, or_false] at h hk
  rcases hk with rfl | hk | hk
  · exact Nat.lt_succ_self _
  · exact Nat.lt_succ_of_lt (Nat.lt_of_lt_of_le (h k (.inr (.inl hk))) hab)
  · exact Nat.lt_succ_of_lt (he k hk)

/-- A state that stands where another one stands, with the same values in scope and the same
text printed.  Its active statement is the renamed one, and the renaming goes along with the
identities that the two states still give out. -/
structure State.Mirrors (base : Nat) (f : Nat → Nat) (r t : State) : Prop where
  aligned : Aligned base r.supply.node t.supply.node f
  base_le : base ≤ r.supply.node
  program : t.program = r.program
  pc : t.pc = r.pc
  active : t.active = r.active.map (Stmt.rename f)
  contents : t.env.contents = r.env.contents
  output : t.output = r.output
  bound : ∀ st, r.active = .filled st → ∀ k ∈ st.ids, k < r.supply.node

/-- Two steps that fail with the same error, or lead to states of which one mirrors the
other. -/
inductive State.InStep (base : Nat) (f : Nat → Nat) :
    Except EvalError State → Except EvalError State → Prop
  | fail (err : EvalError) : InStep base f (.error err) (.error err)
  | go {r t : State} : Mirrors base f r t → InStep base f (.ok r) (.ok t)

namespace State

/-- States in step fail alike. -/
theorem InStep.error_iff {base : Nat} {f : Nat → Nat} {err : EvalError}
    {x y : Except EvalError State} (h : InStep base f x y) :
    x = .error err ↔ y = .error err := by
  cases h <;> simp

variable {w : List Stmt} {i base : Nat} {f : Nat → Nat} {st : Stmt} {env env₀ : Env}
  {out : String} {sup sup₀ : Supply} {r t : State}

/-- Resuming at the same place. -/
theorem Mirrors.resume (hw : ∀ k ∈ Stmt.listIds w, k < base)
    (ha : Aligned base sup.node sup₀.node f) (hbase : base ≤ sup.node)
    (henv : env₀.contents = env.contents) (i : Nat) (out : String) :
    Mirrors base f (resume w i env out sup) (State.resume w i env₀ out sup₀) := by
  have old : ∀ st, (State.resume w i env out sup).active = .filled st → ∀ k ∈ st.ids, k < base := by
    intro st hst k hk
    exact hw k (Stmt.mem_listIds.2 ⟨st, resume_active_mem hst, hk⟩)
  refine ⟨ha, hbase, rfl, rfl, ?_, henv, rfl, ?_⟩
  · change (State.resume w i env out sup).active = _
    cases hact : (State.resume w i env out sup).active with
    | empty => rfl
    | vacant v => rfl
    | filled st =>
      refine congrArg Slot.filled (Stmt.rename_eq_self fun k hk => ?_).symm
      exact ha.fixed k (old st hact k hk)
  · intro st hst k hk
    exact Nat.lt_of_lt_of_le (old st hst k hk) hbase

/-- Jumping to the same label. -/
theorem InStep.jumpTo (hw : ∀ k ∈ Stmt.listIds w, k < base)
    (ha : Aligned base sup.node sup₀.node f) (hbase : base ≤ sup.node)
    (henv : env₀.contents = env.contents) (i : Nat) (st st₀ : Stmt) (out : String) (l : Label) :
    InStep base f ((standing w i st env out sup).jumpTo l)
      ((standing w i st₀ env₀ out sup₀).jumpTo l) := by
  simp only [State.jumpTo, standing]
  cases (w.map Slot.filled).findIdx? (holdsLabel l) with
  | none => exact .fail _
  | some j => exact .go (.resume hw ha hbase henv j out)

/-- Declaring the same name with the same value. -/
theorem InStep.declareChecked (hw : ∀ k ∈ Stmt.listIds w, k < base)
    (ha : Aligned base sup.node sup₀.node f) (hbase : base ≤ sup.node)
    (henv : env₀.contents = env.contents) (i : Nat) (st st₀ : Stmt) (out : String)
    (x : Identifier) (value : Except EvalError Value) :
    InStep base f ((standing w i st env out sup).declareChecked x.name value)
      ((standing w i st₀ env₀ out sup₀).declareChecked x.name value) := by
  rw [step_declareChecked, step_declareChecked, Env.names_eq_of_contents henv]
  split
  · exact .fail _
  · cases value with
    | error err => exact .fail err
    | ok v =>
      refine .go (.resume hw (ha.advance (Nat.le_succ _) ?_) (Nat.le_succ_of_le hbase) ?_ _ _)
      · exact (ha.shift 1).symm
      · simp [Env.contents_insert, henv]

/-- Reducing an expression of the active statement. -/
theorem InStep.reduce (frame : Frame) {id : NodeId} {e : Expr} (hf : frame.Declarable)
    (hi : i < w.length)
    (ha : Aligned base sup.node sup₀.node f) (hbase : base ≤ sup.node)
    (henv : env₀.contents = env.contents) (he : e.Checked) (hnone : e.constant? = none)
    (hb : ∀ k ∈ (frame.fill id e).ids, k < sup.node) (out : String) :
    InStep base f (standing w i (frame.fill id e) env out sup).step
      (standing w i ((frame.fill id e).rename f) env₀ out sup₀).step := by
  have he₀ : (e.rename f).Checked := Expr.checked_rename.2 he
  have hnone₀ : (e.rename f).constant? = none := Expr.constant?_rename_eq_none hnone
  rw [Frame.rename_fill]
  rcases Expr.reduces_or_blocked he hnone env sup with ⟨x, sup', hx⟩ | ⟨err, herr⟩
  · obtain ⟨env₁, sup₁, hx₁, henv₁, hsup₁⟩ := hx.rename ha.shifts henv ha.apply_start.symm
    have hlt := hx.supply_lt
    rw [step_fill hi hf he hnone (hx.reduce_eq he),
      step_fill hi (hf.rename f) he₀ hnone₀ (hx₁.reduce_eq he₀)]
    have ha' := ha.advance (Nat.le_of_lt hlt) hsup₁
    refine .go ⟨ha'.advance (Nat.le_succ _) (ha'.shift 1).symm,
      Nat.le_succ_of_le (Nat.le_trans hbase (Nat.le_of_lt hlt)), rfl, rfl, ?_, henv₁, rfl, ?_⟩
    · simp only [standing, Slot.map, Frame.rename_fill, hsup₁]
    · intro st hst
      cases hst
      refine Frame.ids_refill_lt (Nat.le_of_lt hlt) hb (hx.ids_lt fun k hk => hb k ?_)
      simp [Frame.ids_fill, hk]
  · rw [step_fill_error hi frame id hnone (herr.reduce_eq he sup),
      step_fill_error hi (frame.rename f) (f id) hnone₀ (herr.rename henv |>.reduce_eq he₀ sup₀)]
    exact .fail err

/-- A step of a state, and the step of one that mirrors it. -/
theorem Mirrors.step (hw : ∀ k ∈ Stmt.listIds w, k < base) (hp : Placed w r)
    (h : Mirrors base f r t) : InStep base f r.step t.step := by
  obtain ⟨program, pc, active, env₀, out₀, sup₀⟩ := t
  obtain ⟨ha, hbase, rfl, rfl, rfl, henv, rfl, hb⟩ := h
  cases hp with
  | ended env out sup =>
    rw [ended_step]
    change InStep base f _ (ended w env₀ out sup₀).step
    rw [ended_step]
    exact .fail _
  | @standing i st₁ st env out sup hst hl hpr hc =>
    replace henv : env₀.contents = env.contents := henv
    have hi := (List.getElem?_eq_some_iff.1 hst).1
    have go : ∀ j, InStep base f (.ok (State.resume w j env out sup))
        (.ok (State.resume w j env₀ out sup₀)) := fun j => .go (.resume hw ha hbase henv j out)
    change InStep base f _ (standing w i (st.rename f) env₀ out sup₀).step
    cases st with
    | expression id v =>
      rcases v with - | e
      · rw [Stmt.rename, Option.map_none, step_nop hi, step_nop hi]
        exact go _
      · cases hk : e.constant? with
        | none => exact .reduce .expression trivial hi ha hbase henv hc hk (hb _ rfl) out
        | some c =>
          obtain rfl := Expr.constant?_eq_some_iff.1 hk
          rw [Stmt.rename, Option.map_some, Expr.rename, step_expression hi, step_expression hi]
          exact go _
    | declaration id ty x v =>
      rcases v with - | e
      · rw [Stmt.rename, Option.map_none, step_declaration_none hi, step_declaration_none hi]
        exact .declareChecked hw ha hbase henv i _ _ out x _
      · cases hk : e.constant? with
        | none =>
          exact .reduce (.declaration ty x) hc.1 hi ha hbase henv hc.2.2 hk (hb _ rfl) out
        | some c =>
          obtain rfl := Expr.constant?_eq_some_iff.1 hk
          rw [Stmt.rename, Option.map_some, Expr.rename, step_declaration hi, step_declaration hi]
          exact .declareChecked hw ha hbase henv i _ _ out x _
    | undeclaration id x =>
      rw [Stmt.rename]
      by_cases hx : x.name ∈ env.names
      · have hx₀ : (x.rename f).name ∈ env₀.names := Env.names_eq_of_contents henv ▸ hx
        rw [step_undeclaration hi id hx, step_undeclaration hi (f id) hx₀]
        refine .go (.resume hw ha hbase ?_ _ out)
        simp [Env.contents_erase, henv, Identifier.rename]
      · have hx₀ : (x.rename f).name ∉ env₀.names := Env.names_eq_of_contents henv ▸ hx
        rw [standing_step hi, standing_step hi]
        simp only [stepStmt, standing, Env.unbind?, Env.contains_eq_false_iff.2 hx,
          Env.contains_eq_false_iff.2 hx₀]
        exact .fail _
    | jump id l =>
      rw [standing_step hi, standing_step hi]
      exact .jumpTo hw ha hbase henv i _ _ out l
    | condJump id c onTrue onFalse o =>
      cases hk : c.constant? with
      | none =>
        exact .reduce (.condJump onTrue onFalse o) trivial hi ha hbase henv hc.1 hk (hb _ rfl) out
      | some a =>
        obtain rfl := Expr.constant?_eq_some_iff.1 hk
        rw [Stmt.rename, Expr.rename, step_condJump hi, step_condJump hi]
        simp only [Constant.rename]
        cases a.value.truth with
        | error err => exact .fail err
        | ok b => exact .jumpTo hw ha hbase henv i _ _ out _
    | _ =>
      rw [standing_step hi, standing_step hi]
      exact .fail _

/-- The state that mirrors may leave identities out. -/
theorem Mirrors.resupply (h : Mirrors base f r t) {sup : Supply}
    (hle : t.supply.node ≤ sup.node) : ∃ g, Mirrors base g r { t with supply := sup } := by
  obtain ⟨g, hg, hsame⟩ := h.aligned.resupply h.base_le hle
  refine ⟨g, hg, h.base_le, h.program, h.pc, ?_, h.contents, h.output, h.bound⟩
  change t.active = _
  rw [h.active]
  cases hact : r.active with
  | empty => rfl
  | vacant v => rfl
  | filled st =>
    refine congrArg Slot.filled (Stmt.rename_congr fun k hk => ?_)
    exact (hsame k (h.bound st hact k hk)).symm

end State

end Stepwise
