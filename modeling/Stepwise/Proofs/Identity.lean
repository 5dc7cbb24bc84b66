import Stepwise.Proofs.Steps
import Stepwise.Syntax.Walk
import Mathlib.Data.List.Nodup

/-!
# Proofs - Identities of nodes

In a tree in which no node occurs twice the identities of the nodes differ.  A
reduction gives out new identities for what it builds and keeps the others, so
the statement a machine is reducing never holds a node twice either, and holds
none of the nodes that belong to other parts of the program.

Main results:

- `Expr.Reduces.renews`: the identities after a reduction.
- `State.Renewed.of_reaches`: the identities of the active statement of a run.
-/

namespace Stepwise

/-! ## Lists of identities -/

/-- The identities of the nodes of an expression, in pre-order. -/
def Expr.ids (e : Expr) : List Nat :=
  e.nodes.map Node.id

/-- The identities of the nodes of a statement, in pre-order. -/
def Stmt.ids (s : Stmt) : List Nat :=
  s.nodes.map Node.id

/-- The identities of the nodes of a node, in pre-order. -/
def Node.ids (n : Node) : List Nat :=
  n.nodes.map Node.id

@[simp] theorem Node.ids_expr (e : Expr) : (Node.expr e).ids = e.ids := rfl

@[simp] theorem Node.ids_stmt (s : Stmt) : (Node.stmt s).ids = s.ids := rfl

theorem Expr.listNodes_eq_flatMap (es : List Expr) : Expr.listNodes es = es.flatMap Expr.nodes := by
  induction es with
  | nil => rfl
  | cons e es ih => rw [Expr.listNodes, ih, List.flatMap_cons]

theorem Stmt.listNodes_eq_flatMap (ss : List Stmt) : Stmt.listNodes ss = ss.flatMap Stmt.nodes := by
  induction ss with
  | nil => rfl
  | cons s ss ih => rw [Stmt.listNodes, ih, List.flatMap_cons]

/-- The identities of a list of statements, in pre-order. -/
def Stmt.listIds (ss : List Stmt) : List Nat :=
  (Stmt.listNodes ss).map Node.id

/-- The identities of two lists in turn are those of the first and then of the second. -/
theorem Stmt.listIds_append (ss more : List Stmt) :
    Stmt.listIds (ss ++ more) = Stmt.listIds ss ++ Stmt.listIds more := by
  simp [Stmt.listIds, Stmt.listNodes_eq_flatMap]

@[simp] theorem Stmt.listIds_nil : Stmt.listIds [] = [] := rfl

@[simp] theorem Stmt.listIds_cons (s : Stmt) (ss : List Stmt) :
    Stmt.listIds (s :: ss) = s.ids ++ Stmt.listIds ss := by
  simp [Stmt.listIds, Stmt.listNodes, Stmt.ids]

/-- An identity occurs in a list when it occurs in a member. -/
theorem Stmt.mem_listIds {k : Nat} {ss : List Stmt} :
    k ∈ Stmt.listIds ss ↔ ∃ s ∈ ss, k ∈ s.ids := by
  rw [Stmt.listIds, Stmt.listNodes_eq_flatMap, List.map_flatMap, List.mem_flatMap]
  rfl

/-- The identities of an optional expression. -/
def Expr.optionIds (v : Option Expr) : List Nat :=
  (Expr.optionNodes v).map Node.id

@[simp] theorem Expr.optionIds_none : Expr.optionIds none = [] := rfl

@[simp] theorem Expr.optionIds_some (e : Expr) : Expr.optionIds (some e) = e.ids := rfl

namespace Expr

variable (id : NodeId) (op : BinaryOp) (x f : Identifier) (c : Constant) (l r v : Expr)
  (args : List Expr)

@[simp] theorem ids_identifier : (identifier x).ids = [x.id] := rfl

@[simp] theorem ids_constant : (constant c).ids = [c.id] := rfl

@[simp] theorem ids_binary : (binary id op l r).ids = id :: (l.ids ++ r.ids) :=
  congrArg (id :: ·) List.map_append

@[simp] theorem ids_assign : (assign id x v).ids = id :: x.id :: v.ids := rfl

@[simp] theorem ids_addAssign : (addAssign id x v).ids = id :: x.id :: v.ids := rfl

@[simp] theorem ids_increment : (increment id x).ids = [id, x.id] := rfl

@[simp] theorem ids_invoke : (invoke id f args).ids = id :: f.id :: args.flatMap ids := by
  simp only [ids, nodes, listNodes_eq_flatMap, List.map_cons, List.map_flatMap]
  rfl

/-- The identity of a checked expression comes first. -/
theorem head?_ids {e : Expr} (h : e.Checked) : e.ids.head? = some e.id := by
  cases e <;> simp_all [Expr.id]

end Expr

namespace Stmt

variable (id : NodeId) (t : Datatype) (x : Identifier) (e : Expr) (v : Option Expr)
  (i c u b o : Stmt) (ss : List Stmt) (onTrue onFalse : Label)

@[simp] theorem ids_expression : (expression id v).ids = id :: Expr.optionIds v := rfl

@[simp] theorem ids_declaration :
    (declaration id t x v).ids = id :: x.id :: Expr.optionIds v := rfl

@[simp] theorem ids_block : (block id ss).ids = id :: listIds ss := rfl

@[simp] theorem ids_ifThen : (ifThen id e b).ids = id :: (e.ids ++ b.ids) :=
  congrArg (id :: ·) List.map_append

@[simp] theorem ids_forLoop :
    (forLoop id i c u b).ids = id :: (i.ids ++ (c.ids ++ (u.ids ++ b.ids))) := by
  simp [ids, nodes, Stmt.id]

@[simp] theorem ids_label (l : Label) : (label l).ids = [l.id] := rfl

@[simp] theorem ids_jump (l : Label) : (jump id l).ids = [id] := rfl

@[simp] theorem ids_undeclaration : (undeclaration id x).ids = [id, x.id] := rfl

@[simp] theorem ids_condJump : (condJump id e onTrue onFalse o).ids = id :: e.ids := rfl

/-- The identity of a statement comes first. -/
theorem head?_ids (s : Stmt) : s.ids.head? = some s.id := by
  cases s <;> simp [Stmt.id]

end Stmt

/-- The identities in a frame besides those of the statement and of what fills it. -/
def Frame.ids : Frame → List Nat
  | .expression => []
  | .declaration _ x => [x.id]
  | .condJump .. => []

/-- The identities of a filled frame are its own, those of the frame and those of what fills it. -/
theorem Frame.ids_fill (frame : Frame) (id : NodeId) (e : Expr) :
    (frame.fill id e).ids = id :: (frame.ids ++ (e.ids ++ [])) := by
  cases frame <;> simp [Frame.fill, Frame.ids]

/-! ## Reductions -/

/-- New identities stand for old ones: none occurs twice, and each one is an old one
other than the first or was given out from `a` up to `b`. -/
structure Renews (a : Nat) (old new : List Nat) (b : Nat) : Prop where
  le : a ≤ b
  nodup : new.Nodup
  mem : ∀ k ∈ new, k ∈ old.tail ∨ a ≤ k ∧ k < b

namespace Renews

variable {a b c d id : Nat} {old mid new : List Nat}

/-- A single new identity. -/
theorem single (old : List Nat) {k : Nat} (hak : a ≤ k) (hkb : k < b) : Renews a old [k] b :=
  ⟨by omega, by simp, by simp; omega⟩

/-- Renewing twice. -/
theorem trans (h : Renews a old mid b) (h' : Renews b mid new c) : Renews a old new c := by
  have hle := h.le
  have hle' := h'.le
  refine ⟨by omega, h'.nodup, fun k hk => ?_⟩
  rcases h'.mem k hk with hk | hk
  · rcases h.mem k (List.mem_of_mem_tail hk) with hk | hk
    · exact .inl hk
    · exact .inr (by omega)
  · exact .inr (by omega)

/-- More identities may be given out before and afterwards. -/
theorem widen (h : Renews b old new c) (hab : a ≤ b) (hcd : c ≤ d) : Renews a old new d := by
  have hle := h.le
  refine ⟨by omega, h.nodup, fun k hk => ?_⟩
  rcases h.mem k hk with hk | hk
  · exact .inl hk
  · exact .inr (by omega)

/-- Renewed identities were given out before `b`. -/
theorem lt (h : Renews a old new b) (hlt : ∀ k ∈ old, k < a) : ∀ k ∈ new, k < b := by
  intro k hk
  have hle := h.le
  rcases h.mem k hk with hk | hk
  · have := hlt k (List.mem_of_mem_tail hk)
    omega
  · exact hk.2

/-- A node with a new identity around a renewed part. -/
theorem cover {id' : Nat} (h : Renews a old new b) (pre post : List Nat)
    (hn : (id :: (pre ++ (old ++ post))).Nodup)
    (hlt : ∀ k ∈ id :: (pre ++ (old ++ post)), k < a) (hid : a ≤ id') (hid' : id' < b)
    (hnew : id' ∉ new) :
    Renews a (id :: (pre ++ (old ++ post))) (id' :: (pre ++ (new ++ post))) b := by
  have hmem : ∀ k ∈ new, k ∈ old ∨ a ≤ k ∧ k < b := fun k hk =>
    (h.mem k hk).imp_left List.mem_of_mem_tail
  simp only [List.nodup_cons, List.nodup_append, List.mem_append, List.mem_cons] at hn hlt
  obtain ⟨-, hpre, ⟨-, hpost, hop⟩, hpo⟩ := hn
  refine ⟨h.le, ?_, ?_⟩
  · simp only [List.nodup_cons, List.nodup_append, List.mem_append]
    refine ⟨?_, hpre, ⟨h.nodup, hpost, ?_⟩, ?_⟩
    · rintro (hk | hk | hk)
      · have := hlt id' (.inr (.inl hk))
        omega
      · exact hnew hk
      · have := hlt id' (.inr (.inr (.inr hk)))
        omega
    · intro k hk m hm
      rcases hmem k hk with hk | hk
      · exact hop k hk m hm
      · have := hlt m (.inr (.inr (.inr hm)))
        omega
    · rintro k hk m (hm | hm)
      · rcases hmem m hm with hm | hm
        · exact hpo k hk m (.inl hm)
        · have := hlt k (.inr (.inl hk))
          omega
      · exact hpo k hk m (.inr hm)
  · intro k hk
    simp only [List.tail_cons, List.mem_cons, List.mem_append] at hk ⊢
    rcases hk with rfl | hk | hk | hk
    · exact .inr ⟨hid, hid'⟩
    · exact .inl (.inl hk)
    · rcases hmem k hk with hk | hk
      · exact .inl (.inr (.inl hk))
      · exact .inr hk
    · exact .inl (.inr (.inr hk))

/-- Building a node anew around a renewed part, under the next identity. -/
theorem around (pre post : List Nat) (hn : (id :: (pre ++ (old ++ post))).Nodup)
    (hlt : ∀ k ∈ id :: (pre ++ (old ++ post)), k < a)
    (h : old.Nodup → (∀ k ∈ old, k < a) → Renews a old new b) :
    Renews a (id :: (pre ++ (old ++ post))) (b :: (pre ++ (new ++ post))) (b + 1) := by
  have hsub : old.Sublist (id :: (pre ++ (old ++ post))) :=
    ((List.sublist_append_left old post).trans (List.sublist_append_right pre _)).cons id
  have hold : ∀ k ∈ old, k < a := fun k hk => hlt k (hsub.subset hk)
  have hren := h (hn.sublist hsub) hold
  refine (hren.widen (Nat.le_refl a) (Nat.le_succ b)).cover pre post hn hlt hren.le
    (Nat.lt_succ_self b) ?_
  intro hb
  exact Nat.lt_irrefl b (hren.lt hold b hb)

/-- The first of the old identities is gone. -/
theorem head_notMem (h : Renews a old new b) (hn : old.Nodup) (hlt : ∀ k ∈ old, k < a)
    (hid : old.head? = some id) : id ∉ new := by
  obtain ⟨rest, rfl⟩ := List.head?_eq_some_iff.1 hid
  have := hlt id (List.mem_cons_self ..)
  intro hk
  rcases h.mem id hk with hk | hk
  · exact (List.nodup_cons.1 hn).1 hk
  · omega

end Renews

/-- A reduction renews the identities of an expression. -/
theorem Expr.Reduces.renews {env : Env} {e : Expr} {s s' : Supply} {x : Reduction}
    (h : e.Reduces env s x s') (hn : e.ids.Nodup) (hlt : ∀ k ∈ e.ids, k < s.node) :
    Renews s.node e.ids x.expr.ids s'.node := by
  induction h with
  | read | decided | apply | print => exact .single _ (Nat.le_refl _) (Nat.lt_succ_self _)
  | @left id op l r s s' x _ _ ih =>
    rw [ids_binary] at hn hlt ⊢
    rw [ids_binary]
    exact .around [] r.ids hn hlt ih
  | @right id op a r s s' x _ _ _ ih =>
    have h := Renews.around [a.id] [] (by simpa using hn) (by simpa using hlt) ih
    simpa using h
  | @assigned id x v s s' y _ _ _ ih | @added id x v b s s' y _ _ _ ih =>
    have h := Renews.around [x.id] [] (by simpa using hn) (by simpa using hlt) ih
    simpa using h
  | assign => exact ⟨Nat.le_succ _, by simp, by simp⟩
  | add => exact .single _ (Nat.le_refl _) (Nat.lt_add_of_pos_right Nat.two_pos)
  | increment => exact .single _ (Nat.le_add_right _ 2) (Nat.lt_succ_self _)
  | @argument id f done rest e s s' x _ _ _ ih =>
    have h := Renews.around (f.id :: done.flatMap ids) (rest.flatMap ids) (by simpa using hn)
      (by simpa using hlt) ih
    simpa using h

/-! ## The states of a run -/

/-- The active statement at a place is the statement there, or the same kind of
statement around an expression whose identities were renewed since. -/
inductive Stmt.Renewed (a b : Nat) : Stmt → Stmt → Prop
  | start (st : Stmt) : Renewed a b st st
  | refill {id id' : Nat} {e e' : Expr} (frame : Frame) :
      a ≤ id' → id' < b → id' ∉ e'.ids → Renews a e.ids e'.ids b →
      Renewed a b (frame.fill id e) (frame.fill id' e')

/-- The active statement stays renewed when an expression in it is reduced. -/
theorem Stmt.Renewed.reduce {a b c id : Nat} {st : Stmt} {frame : Frame} {e e' : Expr}
    (h : st.Renewed a b (frame.fill id e)) (hab : a ≤ b)
    (hst : ∀ (frame : Frame) (id : Nat) (e : Expr), st = frame.fill id e →
      e.ids.Nodup ∧ ∀ k ∈ e.ids, k < a)
    (hr : e.ids.Nodup → (∀ k ∈ e.ids, k < b) → Renews b e.ids e'.ids c) :
    a ≤ c ∧ st.Renewed a (c + 1) (frame.fill c e') := by
  have wrap : ∀ {id₀ : Nat} {e₀ : Expr}, (∀ k ∈ e.ids, k < b) → Renews b e.ids e'.ids c →
      Renews a e₀.ids e'.ids c →
      a ≤ c ∧ (frame.fill id₀ e₀).Renewed a (c + 1) (frame.fill c e') := by
    intro id₀ e₀ hlt hren hall
    have hac : a ≤ c := Nat.le_trans hab hren.le
    refine ⟨hac, .refill frame hac (Nat.lt_succ_self c) ?_
      (hall.widen (Nat.le_refl a) (Nat.le_succ c))⟩
    intro hc
    exact Nat.lt_irrefl c (hren.lt hlt c hc)
  generalize hst' : frame.fill id e = st' at h
  cases h with
  | start =>
    obtain ⟨hn, hlt⟩ := hst frame id e hst'.symm
    have hltb : ∀ k ∈ e.ids, k < b := fun k hk => Nat.lt_of_lt_of_le (hlt k hk) hab
    have hren := hr hn hltb
    rw [← hst']
    exact wrap hltb hren (hren.widen hab (Nat.le_refl c))
  | @refill id₀ id₁ e₀ e₁ frame' hid hid' hmem hold =>
    obtain ⟨rfl, rfl, rfl⟩ := Frame.fill_inj hst'
    have hltb := hold.lt (hst frame id₀ e₀ rfl).2
    have hren := hr hold.nodup hltb
    exact wrap hltb hren (hold.trans hren)

/-- The active statement of a state has identities that are its own. -/
structure State.Renewed (a : Nat) (s : State) : Prop where
  le : a ≤ s.supply.node
  active : ∀ st st', s.current = .filled st → s.active = .filled st' →
    st.Renewed a s.supply.node st'

namespace State

variable {w : List Stmt} {i a : Nat} {sup : Supply} {s t : State}

/-- A run that resumes has renewed nothing yet. -/
theorem resume_renewed (w : List Stmt) (i : Nat) (env : Env) (out : String)
    (h : a ≤ sup.node) : (resume w i env out sup).Renewed a := by
  refine ⟨h, fun st st' hst hst' => ?_⟩
  obtain rfl : st = st' := by
    have : (resume w i env out sup).current = (resume w i env out sup).active := rfl
    rw [hst, hst'] at this
    cases this
    rfl
  exact .start st

/-- The identities in the expressions of flat code differ and were given out
before `a`. -/
def Distinct (w : List Stmt) (a : Nat) : Prop :=
  ∀ (frame : Frame) (id : NodeId) (e : Expr), frame.fill id e ∈ w →
    e.ids.Nodup ∧ ∀ k ∈ e.ids, k < a

/-- A step keeps the identities of the active statement its own. -/
theorem Renewed.step (hd : Distinct w a) (hp : Placed w s)
    (h : s.Renewed a) (hs : s.step = .ok t) : t.Renewed a := by
  have hle := h.le
  obtain ⟨i, st, st', env, out, sup, rfl, hst, -, -, hc, hmoves⟩ := hp.moves hs
  cases hmoves with
  | @reduce e x sup' frame id he hx =>
    have hred := (Expr.reduce_eq_ok_iff hc.of_fill).1 hx
    have hcur := h.active st (frame.fill id e) (by simp [current, State.standing, hst]) rfl
    have hdist : ∀ (frame : Frame) (id : Nat) (e : Expr), st = frame.fill id e →
        e.ids.Nodup ∧ ∀ k ∈ e.ids, k < a := by
      rintro frame id e rfl
      exact hd frame id e (List.mem_of_getElem? hst)
    obtain ⟨hle', hnew⟩ := hcur.reduce hle hdist hred.renews
    refine ⟨Nat.le_succ_of_le hle', fun st₀ st₁ h₀ h₁ => ?_⟩
    simp only [current, State.standing, List.getD_eq_getElem?_getD, List.getElem?_map, hst,
      Option.map_some, Option.getD_some, Slot.filled.injEq] at h₀ h₁
    rw [← h₀, ← h₁]
    exact hnew
  | advance id v => exact resume_renewed _ _ _ _ hle
  | declare id t v value hx => exact resume_renewed _ _ _ _ (Nat.le_succ_of_le hle)
  | undeclare id hx => exact resume_renewed _ _ _ _ hle
  | jump hl hj hid => exact resume_renewed _ _ _ _ hle

/-- In every state of a run the active statement has identities that are its own. -/
theorem Renewed.of_reaches (hw : Stmt.AllChecked w) (hd : Distinct w sup.node)
    (h : Reaches (init (w.map .filled) sup) s) : s.Renewed sup.node := by
  refine h.induct_along (resume_renewed _ _ _ _ (Nat.le_refl _)) ?_
  intro t u ht hr hstep
  exact hr.step hd (.of_reaches hw ht) hstep

end State

end Stepwise
