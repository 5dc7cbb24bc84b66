import Stepwise.Lowering.Listing
import Stepwise.Proofs.Inventory
import Stepwise.Proofs.Lowerability
import Stepwise.Proofs.Printing

/-!
# Proofs - What lowering accepts

Lowering comes to a statement, looks at its form and goes on to the statements inside of it.
A program is accepted when all statements it comes to are fit for that, however deep they
stand.  Nothing else can go wrong, as the checked builders take the nodes that lowering makes
on the way (`Build.succeeds_condJump`, `Build.succeeds_undeclarations`).  What it gives can be
listed.

Main results:

- `Stmt.lowerable_iff_reached`: a statement can be lowered when all statements that are
  reached from it are fit.
- `lower_decided`: the outcome of lowering a program, with places that may be empty.
- `listing_ok`: checked flat code can be listed.
- `lower_accepts`: the programs that are accepted, and what happens to the others.
-/

namespace Stepwise

/-! ## Statements that are reached -/

namespace Stmt

/-- The statements that lowering goes on to from a statement.  The condition of a loop is
looked at, but lowering does not go into it. -/
def inner : Stmt → List Stmt
  | .block _ ss => ss
  | .ifThen _ _ b => [b]
  | .forLoop _ i _ u b => [i, u, b]
  | _ => []

/-- A statement that lowering comes to if it starts with another one. -/
def Reached (st st' : Stmt) : Prop :=
  Relation.ReflTransGen (fun a b => b ∈ a.inner) st st'

/-- What lowering asks of a statement it comes to: that it is one of a program, and that the
condition of a loop is an expression statement. -/
structure Fit (st : Stmt) : Prop where
  source : st.isSource = true
  tested : ∀ id i c u b, st = .forLoop id i c u b → c.IsExpression

/-- Induction from the statements that lowering goes on to. -/
theorem inner_induct {P : Stmt → Prop} (h : ∀ st, (∀ st' ∈ st.inner, P st') → P st)
    (st : Stmt) : P st := by
  induction st using Stmt.induct with
  | block id ss ih => exact h _ ih
  | ifThen id c b ih => exact h _ (by simpa [inner] using ih)
  | forLoop id i c u b ihi ihc ihu ihb => exact h _ (by simpa [inner] using ⟨ihi, ihu, ihb⟩)
  | _ => exact h _ (by simp [inner])

/-- A list of statements can be lowered when each of its members can. -/
theorem allLowerable_iff_forall {ss : List Stmt} :
    AllLowerable ss ↔ ∀ st ∈ ss, st.Lowerable := by
  induction ss with
  | nil => simp [AllLowerable]
  | cons st ss ih => simp [AllLowerable, ih]

/-- A statement can be lowered when it is fit and all that stands in it can be lowered. -/
theorem lowerable_iff_inner (st : Stmt) :
    st.Lowerable ↔ st.Fit ∧ ∀ st' ∈ st.inner, st'.Lowerable := by
  cases st with
  | expression | declaration =>
    simp only [Lowerable, inner, List.not_mem_nil, false_implies, implies_true, and_true, true_iff]
    exact ⟨rfl, by simp⟩
  | block id ss =>
    rw [Lowerable, allLowerable_iff_forall, inner]
    exact ⟨fun h => ⟨⟨rfl, by simp⟩, h⟩, fun h => h.2⟩
  | ifThen id c b =>
    simp only [Lowerable, inner, List.mem_singleton, forall_eq]
    exact ⟨fun h => ⟨⟨rfl, by simp⟩, h⟩, fun h => h.2⟩
  | forLoop id i c u b =>
    simp only [Lowerable, inner, List.forall_mem_cons, List.not_mem_nil, false_implies,
      implies_true, and_true]
    constructor
    · rintro ⟨hi, hc, hu, hb⟩
      refine ⟨⟨rfl, ?_⟩, hi, hu, hb⟩
      intro id' i' c' u' b' h
      cases h
      exact hc
    · rintro ⟨hfit, hi, hu, hb⟩
      exact ⟨hi, hfit.tested id i c u b rfl, hu, hb⟩
  | _ =>
    simp only [Lowerable, false_iff]
    intro h
    exact Bool.false_ne_true h.1.source

/-- A statement can be lowered when all that is reached from it is fit. -/
theorem lowerable_iff_reached (st : Stmt) :
    st.Lowerable ↔ ∀ st', st.Reached st' → st'.Fit := by
  constructor
  · intro h st' hreached
    have hst' : st'.Lowerable := by
      induction hreached with
      | refl => exact h
      | tail _ hinner ih => exact ((lowerable_iff_inner _).1 ih).2 _ hinner
    exact ((lowerable_iff_inner st').1 hst').1
  · intro h
    induction st using inner_induct with
    | h st ih =>
      rw [lowerable_iff_inner]
      refine ⟨h st .refl, ?_⟩
      intro st' hst'
      apply ih st' hst'
      intro st'' hreached
      exact h st'' (.head hst' hreached)

end Stmt

/-! ## Programs with empty places -/

open Build

/-- A place can be lowered when a statement stands there that can be lowered. -/
theorem Slot.lower_decided {slot : Slot Stmt} (h : ∀ st, slot = .filled st → st.Checked) :
    Decided (∃ st, slot = .filled st ∧ st.Lowerable) slot.lower := by
  cases slot with
  | filled st =>
    refine (Stmt.lower_decided (h st rfl)).congr ⟨fun h => ⟨st, rfl, h⟩, ?_⟩
    rintro ⟨st', hst, h⟩
    cases hst
    exact h
  | empty => exact fun s => ⟨by simp, rfl⟩
  | vacant v => exact fun s => ⟨by simp, rfl⟩

/-- Lowering succeeds on a program all of whose places can be lowered, and else refuses a
node as unsupported. -/
theorem lower_decided {program : List (Slot Stmt)}
    (h : ∀ st, Slot.filled st ∈ program → st.Checked) :
    Decided (∀ slot ∈ program, ∃ st, slot = .filled st ∧ st.Lowerable) (lower program) := by
  induction program with
  | nil => exact (succeeds_pure _).decided fun slot hslot => absurd hslot List.not_mem_nil
  | cons slot rest ih =>
    have hslot := Slot.lower_decided fun st hst => h st (hst ▸ List.mem_cons_self ..)
    have hrest := ih fun st hst => h st (List.mem_cons_of_mem _ hst)
    refine Decided.congr ?_ List.forall_mem_cons.symm
    exact hslot.bind fun _ => hrest.andThen fun _ => succeeds_pure _

/-! ## Listings -/

/-- A node without an obstacle has a text. -/
theorem Node.listed_ok {n : Node} (hn : ∀ m ∈ n.nodes, m.obstacle? = none) :
    ∃ text, n.listed = .ok text := by
  have hnone : n.nodes.findSome? Node.obstacle? = none := List.findSome?_eq_none_iff.2 hn
  exact ⟨Fragment.join n.fragments, by simp [Node.listed, Node.printed, hnone]⟩

/-- Every checked flat statement has a line. -/
theorem Stmt.listing_ok {st : Stmt} (hst : st.Checked) (hflat : st.Flat) :
    ∃ line, st.listing = .ok line := by
  cases st with
  | expression id v =>
    obtain ⟨text, htext⟩ := @Node.listed_ok (.stmt (.expression id v)) (Stmt.obstacle?_eq_none hst)
    exact ⟨_, by rw [Stmt.listing, htext]; rfl⟩
  | declaration id t x v =>
    obtain ⟨text, htext⟩ :=
      @Node.listed_ok (.stmt (.declaration id t x v)) (Stmt.obstacle?_eq_none hst)
    exact ⟨_, by rw [Stmt.listing, htext]; rfl⟩
  | condJump id c t f o =>
    obtain ⟨text, htext⟩ := @Node.listed_ok (.expr c) (Expr.obstacle?_eq_none hst.1)
    exact ⟨_, by rw [Stmt.listing, htext]; rfl⟩
  | label l => exact ⟨_, rfl⟩
  | jump id l => exact ⟨_, rfl⟩
  | undeclaration id x => exact ⟨_, rfl⟩
  | _ => exact hflat.elim

/-- Checked flat code can be listed. -/
theorem listing_ok {code : List Stmt} (hcode : Stmt.AllChecked code)
    (hflat : ∀ st ∈ code, st.Flat) : ∃ text, listing (code.map .filled) = .ok text := by
  have hlines : ∃ lines, (code.map Slot.filled).mapM Slot.listing = .ok lines := by
    induction code with
    | nil => exact ⟨[], rfl⟩
    | cons st code ih =>
      rw [List.forall_mem_cons] at hflat
      obtain ⟨line, hline⟩ := Stmt.listing_ok hcode.1 hflat.1
      obtain ⟨lines, hlines⟩ := ih hcode.2 hflat.2
      refine ⟨line :: lines, ?_⟩
      rw [List.map_cons, List.mapM_cons, hlines, Slot.listing, hline]
      rfl
  obtain ⟨lines, hlines⟩ := hlines
  exact ⟨String.join lines, by rw [listing, hlines]; rfl⟩

/-! ## The programs that are accepted -/

/-- A program, in which places may be empty, is lowered exactly if a statement stands at each
of its places and all statements that are reached from there are fit.  Any other program is
refused as unsupported.  What a program is lowered to can be listed. -/
theorem lower_accepts {program : List (Slot Stmt)}
    (hchecked : ∀ st, Slot.filled st ∈ program → st.Checked) (s : Supply) :
    ((∃ code s', lower program s = .ok (code, s')) ↔
      ∀ slot ∈ program, ∃ st, slot = .filled st ∧ ∀ st', st.Reached st' → st'.Fit) ∧
    (∀ e, lower program s = .error e → e.errorClass = .unsupportedNode) ∧
    ∀ code s', lower program s = .ok (code, s') →
      ∃ text, listing (code.map .filled) = .ok text := by
  have hdecided := lower_decided hchecked
  refine ⟨?_, fun e => hdecided.errorClass, ?_⟩
  · simp only [← Stmt.lowerable_iff_reached, ← hdecided.exists_ok_iff s, Prod.exists]
  · intro code s' h
    obtain ⟨tree, rfl⟩ := filled_of_lower h
    rw [lower_filled] at h
    have hlayout := (Stmt.lowerAll_layout h).1
    have htree : Stmt.AllChecked tree := by
      rw [Stmt.allChecked_iff]
      intro st hst
      exact hchecked st (List.mem_map_of_mem hst)
    exact listing_ok (hlayout.checked htree) hlayout.flat

/-- The program `{ if (x) for (; cond; ) {} }`, with a statement for the condition of its
loop. -/
def guardedLoop (cond : Stmt) : List (Slot Stmt) :=
  [.filled (.block 1 [.ifThen 2 (.identifier ⟨3, "x"⟩)
    (.forLoop 4 (.expression 5 none) cond (.expression 6 none) (.block 7 []))])]

/-- The loop is made of checked statements if its condition is one. -/
theorem guardedLoop_checked {cond : Stmt} (h : cond.Checked) :
    ∀ st, Slot.filled st ∈ guardedLoop cond → st.Checked := by
  intro st hst
  cases List.mem_singleton.1 hst
  simp [h, Identifier.Checked]

/-- The program is accepted and listed without a condition, and refused with a block for one. -/
theorem lower_accepts_guardedLoop :
    (Stmt.expression 8 none).Checked ∧ (Stmt.block 8 []).Checked ∧
      (∃ code s' text, lower (guardedLoop (.expression 8 none)) ⟨9, 0⟩ = .ok (code, s') ∧
        listing (code.map .filled) = .ok text) ∧
      ∃ e, lower (guardedLoop (.block 8 [])) ⟨9, 0⟩ = .error e ∧
        e.errorClass = .unsupportedNode := by
  have hnop : (Stmt.expression 8 none).Checked := trivial
  have hblock : (Stmt.block 8 []).Checked := trivial
  refine ⟨hnop, hblock, ?_, ?_⟩
  · obtain ⟨code, s', hlower⟩ : ∃ code s',
        lower (guardedLoop (.expression 8 none)) ⟨9, 0⟩ = .ok (code, s') := ⟨_, _, rfl⟩
    obtain ⟨text, htext⟩ := (lower_accepts (guardedLoop_checked hnop) ⟨9, 0⟩).2.2 code s' hlower
    exact ⟨code, s', text, hlower, htext⟩
  · obtain ⟨e, hlower⟩ : ∃ e, lower (guardedLoop (.block 8 [])) ⟨9, 0⟩ = .error e := ⟨_, rfl⟩
    exact ⟨e, hlower, (lower_accepts (guardedLoop_checked hblock) ⟨9, 0⟩).2.1 e hlower⟩

end Stepwise
