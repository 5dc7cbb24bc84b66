import Stepwise.Proofs.Identity
import Stepwise.Proofs.Scope

/-!
# Proofs - What can be lowered

Lowering a checked tree fails on nothing but a statement that is no source statement and
a loop whose condition is no expression statement, and then says that the node is
unsupported.  The nodes that it makes on the way go through the checked builders, which
take all of them.  So it depends on the tree alone whether it succeeds, and on a tree of
source statements on its loops alone.

Main definitions:

- `Stmt.Lowerable`, which says what can be lowered without lowering it.
- `Build.Decided`, the outcomes of a computation that a condition decides.

Main results:

- `Build.succeeds_condJump` and `Build.succeeds_undeclarations`: the nodes that lowering
  makes fit together.
- `Stmt.lowerAll_decided`: lowering succeeds on the checked trees that are
  `AllLowerable`, and refuses all others.
- `Stmt.allLowerable_iff`: a tree of source statements can be lowered when all its
  loops are `Tested`.
-/

namespace Stepwise

/-! ## Statements that can be lowered -/

/-- Whether a statement is an expression statement. -/
def Stmt.IsExpression : Stmt → Prop
  | .expression .. => True
  | _ => False

mutual

/-- A statement that can be lowered: it is a source statement, and the condition of
every loop in it is an expression statement. -/
def Stmt.Lowerable : Stmt → Prop
  | .expression .. => True
  | .declaration .. => True
  | .block _ ss => Stmt.AllLowerable ss
  | .ifThen _ _ b => b.Lowerable
  | .forLoop _ i c u b => i.Lowerable ∧ c.IsExpression ∧ u.Lowerable ∧ b.Lowerable
  | _ => False

/-- A list of statements that can be lowered. -/
def Stmt.AllLowerable : List Stmt → Prop
  | [] => True
  | s :: ss => s.Lowerable ∧ Stmt.AllLowerable ss

end

/-! ## Outcomes of lowering -/

namespace Build

variable {α β : Type} {A B : Prop} {x : Build NodeError α} {f : α → Build NodeError β}

/-- A computation that succeeds whatever it draws from. -/
def Succeeds (x : Build NodeError α) : Prop :=
  ∀ s, ∃ r, x s = .ok r

/-- A computation that succeeds when a condition holds, and else fails with an error for an
unsupported node. -/
def Decided (A : Prop) (x : Build NodeError α) : Prop :=
  ∀ s, match x s with
    | .ok _ => A
    | .error e => ¬A ∧ e.errorClass = .unsupportedNode

/-- Equivalent conditions decide the same outcome. -/
theorem Decided.congr (h : Decided A x) (hiff : A ↔ B) : Decided B x := by
  rwa [propext hiff] at h

/-- Of two computations in sequence both have to succeed. -/
theorem Decided.bind (h : Decided A x) (hf : ∀ a, Decided B (f a)) :
    Decided (A ∧ B) (x >>= f) := by
  intro s
  have hx := h s
  rw [bind_apply]
  cases hxs : x s with
  | error e =>
    rw [hxs] at hx
    exact ⟨fun hAB => hx.1 hAB.1, hx.2⟩
  | ok r =>
    rw [hxs] at hx
    exact ((hf r.1).congr (and_iff_right hx).symm) r.2

/-- A computation that cannot fail decides nothing. -/
theorem Succeeds.bind (h : Succeeds x) (hf : ∀ a, Decided B (f a)) : Decided B (x >>= f) := by
  intro s
  obtain ⟨r, hr⟩ := h s
  rw [bind_apply, hr]
  exact hf r.1 r.2

/-- A success is decided by whatever holds. -/
theorem Succeeds.decided (h : Succeeds x) (hA : A) : Decided A x := by
  intro s
  obtain ⟨r, hr⟩ := h s
  rwa [hr]

theorem succeeds_pure (a : α) : Succeeds (pure a) :=
  fun s => ⟨(a, s), rfl⟩

theorem succeeds_modifyGet (g : Supply → α × Supply) : Succeeds (modifyGet g) :=
  fun s => ⟨g s, rfl⟩

/-- What follows the last computation that may fail changes nothing. -/
theorem Decided.andThen (h : Decided A x) (hf : ∀ a, Succeeds (f a)) : Decided A (x >>= f) :=
  (h.bind fun a => (hf a).decided trivial).congr (and_iff_left trivial)

/-- Successes in turn succeed. -/
theorem Succeeds.andThen (h : Succeeds x) (hf : ∀ a, Succeeds (f a)) : Succeeds (x >>= f) := by
  intro s
  obtain ⟨r, hr⟩ := h s
  rw [bind_apply, hr]
  exact hf r.1 r.2

/-- A computation succeeds when its condition holds. -/
theorem Decided.exists_ok_iff (h : Decided A x) (s : Supply) : (∃ r, x s = .ok r) ↔ A := by
  have hx := h s
  cases hxs : x s with
  | ok r =>
    rw [hxs] at hx
    exact ⟨fun _ => hx, fun _ => ⟨r, rfl⟩⟩
  | error e =>
    rw [hxs] at hx
    refine ⟨?_, fun hA => absurd hA hx.1⟩
    rintro ⟨r, hr⟩
    cases hr

/-- A computation that a condition decides fails at unsupported nodes only. -/
theorem Decided.errorClass {e : NodeError} {s : Supply} (h : Decided A x) (hx : x s = .error e) :
    e.errorClass = .unsupportedNode := by
  have hs := h s
  rw [hx] at hs
  exact hs.2

/-! ## The nodes that lowering makes -/

/-- A checked condition fits into a conditional jump. -/
theorem succeeds_condJump {c : Expr} (hc : c.Checked) (t f : Label) (o : Stmt) :
    Succeeds (condJump (.expr c) (.label t) (.label f) (.stmt o)) := by
  intro s
  rw [Operand.expr_of_checked hc]
  exact ⟨_, condJump_apply c t f o s⟩

/-- The names that statements declare fit into undeclarations. -/
theorem succeeds_undeclarations (ss : List Stmt) : Succeeds (undeclarations ss) := by
  intro s
  obtain ⟨drops, s', h⟩ := exists_undeclarations ss s
  exact ⟨_, h⟩

end Build

/-! ## Lowering of statements -/

open Build

/-- A condition is lowered when it is an expression statement. -/
theorem lowerCondition_decided {c : Stmt} (hc : c.Checked) (body exit : Label) :
    Decided c.IsExpression (lowerCondition c body exit) := by
  cases c with
  | expression id v =>
    cases v with
    | none => exact (succeeds_modifyGet _).decided trivial
    | some e => exact (succeeds_condJump hc _ _ _).decided trivial
  | _ => exact fun s => ⟨id, rfl⟩

/-- A list of statements is lowered when each of them is. -/
theorem Stmt.lowerAll_decided_of_members {ss : List Stmt}
    (h : ∀ st ∈ ss, Decided st.Lowerable st.lower) :
    Decided (Stmt.AllLowerable ss) (Stmt.lowerAll ss) := by
  induction ss with
  | nil => exact (succeeds_pure _).decided trivial
  | cons st ss ih =>
    rw [List.forall_mem_cons] at h
    exact h.1.bind fun _ => (ih h.2).andThen fun _ => succeeds_pure _

/-- A checked statement is lowered when it can be, and else refused as unsupported: the nodes
that lowering makes always fit together. -/
theorem Stmt.lower_decided {st : Stmt} (h : st.Checked) : Decided st.Lowerable st.lower := by
  induction st using Stmt.induct with
  | expression => exact (succeeds_pure _).decided trivial
  | declaration => exact (succeeds_pure _).decided trivial
  | block id ss ih =>
    have hss := Stmt.lowerAll_decided_of_members fun st hst =>
      ih st hst (Stmt.allChecked_iff.1 h st hst)
    exact hss.andThen fun _ => (succeeds_undeclarations ss).andThen fun _ => succeeds_pure _
  | ifThen id c b ih =>
    refine (succeeds_modifyGet _).bind fun onTrue => (succeeds_modifyGet _).bind fun onFalse =>
      (succeeds_modifyGet _).bind fun exit => (succeeds_condJump h.1 _ _ _).bind fun test => ?_
    exact (ih h.2).andThen fun _ => (succeeds_modifyGet _).andThen fun _ =>
      (succeeds_modifyGet _).andThen fun _ => succeeds_pure _
  | forLoop id i c u b ihi ihc ihu ihb =>
    have hparts : i.Lowerable ∧ c.IsExpression ∧ b.Lowerable ∧ u.Lowerable ↔
        (Stmt.forLoop id i c u b).Lowerable :=
      and_congr_right' (and_congr_right' and_comm)
    refine Decided.congr ?_ hparts
    refine (succeeds_modifyGet _).bind fun start => (succeeds_modifyGet _).bind fun inner =>
      (succeeds_modifyGet _).bind fun exit => ?_
    refine (ihi h.1).bind fun _ => (lowerCondition_decided h.2.1 _ _).bind fun _ =>
      (ihb h.2.2.2).bind fun _ => (ihu h.2.2.1).andThen fun _ => ?_
    exact (succeeds_modifyGet _).andThen fun _ =>
      (succeeds_undeclarations [i]).andThen fun _ => succeeds_pure _
  | label => exact fun s => ⟨fun h => h, rfl⟩
  | jump => exact fun s => ⟨fun h => h, rfl⟩
  | condJump => exact fun s => ⟨fun h => h, rfl⟩
  | undeclaration => exact fun s => ⟨fun h => h, rfl⟩

/-- Lowering succeeds on the lists of checked statements that can be lowered, and else refuses
a node as unsupported. -/
theorem Stmt.lowerAll_decided {ss : List Stmt} (h : Stmt.AllChecked ss) :
    Decided (Stmt.AllLowerable ss) (Stmt.lowerAll ss) :=
  Stmt.lowerAll_decided_of_members fun st hst => Stmt.lower_decided (Stmt.allChecked_iff.1 h st hst)

/-! ## Loops with a test -/

/-- A node that is no loop, or a loop whose condition is an expression statement. -/
def Node.Tested : Node → Prop
  | .stmt (.forLoop _ _ c _ _) => c.IsExpression
  | _ => True

/-- Nodes are tested when the conditions of the loops among them are expression statements. -/
theorem Node.forall_tested_iff {nodes : List Node} :
    (∀ n ∈ nodes, n.Tested) ↔
      ∀ id i c u b, Node.stmt (.forLoop id i c u b) ∈ nodes → c.IsExpression := by
  constructor
  · intro h id i c u b hmem
    exact h _ hmem
  · intro h n hn
    cases n with
    | expr e => exact trivial
    | stmt st =>
      cases st with
      | forLoop id i c u b => exact h id i c u b hn
      | _ => exact trivial

/-- Every node of an expression is tested, as none is a loop. -/
theorem Expr.tested_of_mem_nodes {e : Expr} {n : Node} (h : n ∈ e.nodes) : n.Tested := by
  cases n with
  | expr e' => exact trivial
  | stmt st => exact absurd h (e.stmt_not_mem_nodes st)

theorem Expr.tested_of_mem_optionNodes {v : Option Expr} {n : Node}
    (h : n ∈ Expr.optionNodes v) : n.Tested := by
  cases v with
  | none => cases h
  | some e => exact Expr.tested_of_mem_nodes h

/-- The nodes of an expression statement contain no loop. -/
theorem Stmt.IsExpression.tested {st : Stmt} (h : st.IsExpression) : ∀ n ∈ st.nodes, n.Tested := by
  cases st with
  | expression id v =>
    intro n hn
    rw [Stmt.nodes, List.mem_cons] at hn
    rcases hn with rfl | hn
    · exact trivial
    · exact Expr.tested_of_mem_optionNodes hn
  | _ => exact h.elim

/-- A list of statements can be lowered when all loops in it are tested, if that holds of
each of the statements. -/
theorem Stmt.allLowerable_iff_of_members {ss : List Stmt}
    (h : ∀ st ∈ ss, (st.Lowerable ↔ ∀ n ∈ st.nodes, n.Tested)) :
    Stmt.AllLowerable ss ↔ ∀ n ∈ Stmt.listNodes ss, n.Tested := by
  induction ss with
  | nil => simp [Stmt.AllLowerable, Stmt.listNodes]
  | cons st ss ih =>
    rw [List.forall_mem_cons] at h
    rw [Stmt.AllLowerable, h.1, ih h.2, Stmt.listNodes, List.forall_mem_append]

/-- Among source statements, those can be lowered whose loops are all tested. -/
theorem Stmt.lowerable_iff {st : Stmt} (h : ∀ st', Node.stmt st' ∈ st.nodes → st'.isSource = true) :
    st.Lowerable ↔ ∀ n ∈ st.nodes, n.Tested := by
  induction st using Stmt.induct with
  | expression id v => exact ⟨fun _ => Stmt.IsExpression.tested trivial, fun _ => trivial⟩
  | declaration id t x v =>
    refine ⟨fun _ n hn => ?_, fun _ => trivial⟩
    simp only [Stmt.nodes, List.mem_cons] at hn
    rcases hn with rfl | rfl | hn
    · exact trivial
    · exact trivial
    · exact Expr.tested_of_mem_optionNodes hn
  | block id ss ih =>
    have hmem : ∀ st ∈ ss, (st.Lowerable ↔ ∀ n ∈ st.nodes, n.Tested) := by
      intro st hst
      refine ih st hst fun st' hst' => h st' (List.mem_cons_of_mem _ ?_)
      rw [Stmt.listNodes_eq_flatMap]
      exact List.mem_flatMap_of_mem hst hst'
    rw [Stmt.Lowerable, Stmt.allLowerable_iff_of_members hmem, Stmt.nodes, List.forall_mem_cons]
    exact (and_iff_right trivial).symm
  | ifThen id c b ih =>
    simp only [Stmt.nodes, List.forall_mem_cons, List.forall_mem_append]
    have hb := ih fun st' hst' => h st' (by simp [Stmt.nodes, hst'])
    rw [Stmt.Lowerable, hb]
    exact ⟨fun hall => ⟨trivial, fun n => Expr.tested_of_mem_nodes, hall⟩, fun hall => hall.2.2⟩
  | forLoop id i c u b ihi ihc ihu ihb =>
    simp only [Stmt.nodes, List.forall_mem_cons, List.forall_mem_append]
    have hi := ihi fun st' hst' => h st' (by simp [Stmt.nodes, hst'])
    have hu := ihu fun st' hst' => h st' (by simp [Stmt.nodes, hst'])
    have hb := ihb fun st' hst' => h st' (by simp [Stmt.nodes, hst'])
    rw [Stmt.Lowerable, hi, hu, hb]
    constructor
    · rintro ⟨hi, hc, hu, hb⟩
      exact ⟨hc, hi, hc.tested, hu, hb⟩
    · rintro ⟨hc, hi, -, hu, hb⟩
      exact ⟨hi, hc, hu, hb⟩
  | label l => cases h (.label l) (List.mem_singleton_self _)
  | jump id l => cases h (.jump id l) (List.mem_singleton_self _)
  | condJump id c t f o => cases h (.condJump id c t f o) (by simp [Stmt.nodes])
  | undeclaration id x => cases h (.undeclaration id x) (by simp [Stmt.nodes])

/-- A list of source statements can be lowered when all loops in it are tested. -/
theorem Stmt.allLowerable_iff {ss : List Stmt}
    (h : ∀ st, Node.stmt st ∈ Stmt.listNodes ss → st.isSource = true) :
    Stmt.AllLowerable ss ↔ ∀ n ∈ Stmt.listNodes ss, n.Tested := by
  refine Stmt.allLowerable_iff_of_members fun st hst => Stmt.lowerable_iff fun st' hst' => ?_
  apply h st'
  rw [Stmt.listNodes_eq_flatMap]
  exact List.mem_flatMap_of_mem hst hst'

end Stepwise
