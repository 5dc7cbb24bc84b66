import Stepwise.Proofs.Views

/-!
# Proofs - When the active statement is marked

A view marks the active statement where one of its fragments anchors its range.  A
statement that prints something has such a fragment, unless all that is left of it is
a name: a name does not anchor the range of a statement, so the statement is then
marked by its closing semicolon, and where the header of a loop leaves the semicolon
out it is not marked at all.

Main results:

- `Node.anchored_span_iff`: when a fragment anchors what a statement stands for.
- `view_marked_iff`: when the views of a run mark the active statement.
-/

namespace Stepwise

/-! ## Fragments that anchor a range -/

/-- A fragment of a node that is no identifier anchors the range of every node around
it. -/
theorem Node.anchored_of_owner {n m : Node} {f : Fragment} {frags : List Fragment}
    (hm : m ∈ n.nodes) (hid : m.isIdentifier = false) (hf : f ∈ frags)
    (howner : f.owner = .filled m) : n.Anchored frags := by
  have hmem : m ∈ n.nodes.filter (!·.isIdentifier) := List.mem_filter.2 ⟨hm, by simp [hid]⟩
  have hanchor : m ∈ anchors n := by
    unfold anchors
    split
    · rename_i hnil
      rw [hnil] at hmem
      cases hmem
    · exact hmem
  refine ⟨f, hf, ?_⟩
  simp only [Fragment.ownedBy, howner, List.any_eq_true]
  exact ⟨m, hanchor, by simp [Node.same]⟩

/-- Where a node is anchored, there are fragments. -/
theorem Node.Anchored.ne_nil {n : Node} {frags : List Fragment} (h : n.Anchored frags) :
    frags ≠ [] := by
  rintro rfl
  obtain ⟨f, hf, -⟩ := h
  cases hf

section Statements

variable {id : NodeId} {x : Identifier} {e : Expr}

/-- An expression statement anchors its range where it prints something, unless its
expression is a name. -/
theorem Stmt.anchored_expression (he : e.Checked) (hname : ∀ x, e ≠ .identifier x)
    (closing : Bool) (hne : (Node.stmt (.expression id (some e))).span closing ≠ []) :
    (Node.stmt (.expression id (some e))).Anchored
      ((Node.stmt (.expression id (some e))).span closing) := by
  rw [Node.span, Node.fragments, Stmt.fragments, Fragment.trim_append _ _ (by simp)] at hne ⊢
  cases closing with
  | false =>
    exact Node.anchored_of_owner (m := .stmt (.expression id (some e))) (List.mem_cons_self ..) rfl
      (List.mem_append_right _ (List.mem_singleton_self _)) rfl
  | true =>
    have hfrags : Expr.optionFragments (some e) ++
        Fragment.trim true [.ofStmt ";" (.expression id (some e))] = e.fragments := by
      simp [Expr.optionFragments, Fragment.dropSemicolon, Fragment.ofStmt]
    rw [hfrags] at hne ⊢
    obtain ⟨f, hf, howner⟩ := Expr.exists_own_fragment he hne
    have hno : (Node.expr e).isIdentifier = false := by
      cases e with
      | identifier x => exact absurd rfl (hname x)
      | _ => rfl
    exact Node.anchored_of_owner (List.mem_cons_of_mem _ (Expr.mem_nodes_self he)) hno hf howner

/-- A statement that is a name alone anchors its range by its semicolon. -/
theorem Stmt.anchored_name_iff (hne : id ≠ x.id) (closing : Bool) :
    (Node.stmt (.expression id (some (.identifier x)))).Anchored
      ((Node.stmt (.expression id (some (.identifier x)))).span closing) ↔ closing = false := by
  have hanchors : anchors (.stmt (.expression id (some (.identifier x)))) =
      [.stmt (.expression id (some (.identifier x)))] := rfl
  have hspan : ∀ closing, (Node.stmt (.expression id (some (.identifier x)))).span closing =
      x.fragment ::
        Fragment.trim closing [.ofStmt ";" (.expression id (some (.identifier x)))] := by
    intro closing
    exact Fragment.trim_append closing [x.fragment] (by simp)
  constructor
  · rintro ⟨f, hf, hown⟩
    rw [hspan] at hf
    rw [Fragment.ownedBy_iff, hanchors] at hown
    cases closing with
    | false => rfl
    | true =>
      simp only [Fragment.trim_true, Fragment.dropSemicolon, Fragment.ofStmt,
        List.getLast?_singleton, ↓reduceIte, List.dropLast_singleton, List.mem_singleton] at hf
      subst hf
      have hid : x.id = id := by simpa [Node.id, Stmt.id] using hown
      exact absurd hid.symm hne
  · rintro rfl
    rw [hspan]
    exact Node.anchored_of_owner (m := .stmt (.expression id (some (.identifier x))))
      (List.mem_cons_self ..) rfl (List.mem_cons_of_mem _ (List.mem_singleton_self _)) rfl

end Statements

/-- What a statement stands for anchors its range where it prints something, unless it is
a name without its semicolon. -/
theorem Node.anchored_span_iff {st : Stmt} {n : Node} {closing : Bool}
    (hn : st.counterpart? = some n) (hchecked : n.Checked) (hnodup : n.ids.Nodup)
    (hwhole : ∀ e, n = .expr e → closing = false) :
    n.Anchored (n.span closing) ↔ n.span closing ≠ [] ∧
      ∀ id x, n = .stmt (.expression id (some (.identifier x))) → closing = false := by
  constructor
  · intro hanchor
    refine ⟨hanchor.ne_nil, ?_⟩
    rintro id x rfl
    have hne : id ≠ x.id := by simpa using hnodup
    exact (Stmt.anchored_name_iff hne closing).1 hanchor
  · rintro ⟨hne, hname⟩
    rcases Stmt.counterpart?_eq_some hn with ⟨hsimple, rfl⟩ | ⟨id, c, onTrue, onFalse, o, -, rfl⟩
    · cases st with
      | expression id v =>
        cases v with
        | none =>
          cases closing with
          | false =>
            exact Node.anchored_of_owner (m := .stmt (.expression id none))
              (List.mem_cons_self ..) rfl (List.mem_singleton_self _) rfl
          | true => exact absurd rfl hne
        | some e =>
          by_cases hid : ∃ x, e = .identifier x
          · obtain ⟨x, rfl⟩ := hid
            have hneq : id ≠ x.id := by simpa using hnodup
            exact (Stmt.anchored_name_iff hneq closing).2 (hname id x rfl)
          · exact Stmt.anchored_expression hchecked (fun x hx => hid ⟨x, hx⟩) closing hne
      | declaration id t x v =>
        obtain ⟨rest, hrest, hfrags⟩ : ∃ rest, rest ≠ [] ∧
            (Stmt.declaration id t x v).fragments 0 =
              .ofStmt (t.text ++ " ") (.declaration id t x v) :: rest := by
          cases v <;> exact ⟨_, by simp, rfl⟩
        rw [Node.span, Node.fragments, hfrags, Fragment.trim_cons _ _ hrest]
        exact Node.anchored_of_owner (m := .stmt (.declaration id t x v)) (List.mem_cons_self ..)
          rfl (List.mem_cons_self ..) rfl
      | _ => cases hsimple
    · have hclosing := hwhole c rfl
      subst hclosing
      exact Expr.anchored_of_ne_nil hchecked hne

/-! ## What the rendering shows of a node -/

/-- What comes from a node in a text comes from its span. -/
theorem Differ.exists_from_iff {ids sub : List Nat} {span span' whole whole' : List Fragment}
    (h : Differ ids span span' whole whole') (hsub : sub ⊆ ids) :
    (∃ f ∈ whole', f.From sub) ↔ ∃ f ∈ span', f.From sub := by
  obtain ⟨b, a, b', a', -, rfl, -, -, hnone⟩ := h
  constructor
  · rintro ⟨f, hf, hfrom⟩
    simp only [List.mem_append] at hf
    rcases hf with hf | hf | hf
    · exact absurd (hfrom.mono hsub) (hnone f (List.mem_append_left _ hf))
    · exact ⟨f, hf, hfrom⟩
    · exact absurd (hfrom.mono hsub) (hnone f (List.mem_append_right _ hf))
  · rintro ⟨f, hf, hfrom⟩
    exact ⟨f, by simp [hf], hfrom⟩

namespace View.InPlace

variable {v : View} {tree tree' : List Stmt} {n n' redex : Node} {closing : Bool} {sup : Supply}

/-- The rendering shows something of a node where its span is not empty. -/
theorem prints_iff (h : v.InPlace tree tree' n n' redex closing sup) :
    (∃ f ∈ render tree', f.ownedBy n'.nodes = true) ↔ n'.span closing ≠ [] := by
  simp only [Fragment.ownedBy_iff]
  change (∃ f ∈ render tree', f.From n'.ids) ↔ _
  rw [h.differ.exists_from_iff (List.Subset.refl _)]
  constructor
  · rintro ⟨f, hf, -⟩
    exact List.ne_nil_of_mem hf
  · intro hne
    obtain ⟨f, hf⟩ := List.exists_mem_of_ne_nil _ hne
    exact ⟨f, hf, n'.span_from closing f hf⟩

/-- The rendering shows the semicolon of a statement that is a name alone, unless it is
left out. -/
theorem semicolon_iff {id : NodeId} {x : Identifier}
    (h : v.InPlace tree tree' n (.stmt (.expression id (some (.identifier x)))) redex closing sup) :
    (∃ f ∈ render tree', f.From [id]) ↔ closing = false := by
  have hne : id ≠ x.id := by simpa using h.nodup
  rw [h.differ.exists_from_iff (by simp)]
  rw [← Stmt.anchored_name_iff hne closing]
  simp only [Node.Anchored, Fragment.ownedBy_iff]
  rfl

/-- The view marks the node where the rendering shows something of it, and its semicolon
if it is a name alone. -/
theorem marked_iff {st : Stmt} (h : v.InPlace tree tree' n n' redex closing sup)
    (hn' : st.counterpart? = some n') :
    v.range.isSome = true ↔ (∃ f ∈ render tree', f.ownedBy n'.nodes = true) ∧
      ∀ id x, n' = .stmt (.expression id (some (.identifier x))) →
        ∃ f ∈ render tree', f.From [id] := by
  have hspan : v.range.isSome = true ↔ n'.Anchored (n'.span closing) := by
    obtain ⟨focus, rfl, -⟩ := h.built
    obtain ⟨-, -, before, after, -, hrender, -, -, hnone⟩ := h.differ
    rw [hrender]
    exact View.isSome_ofFragments_range h.checked.mem_nodes_self (n'.span_from closing) hnone
  rw [hspan, Node.anchored_span_iff hn' h.checked h.nodup h.whole, h.prints_iff]
  refine and_congr_right fun _ => forall_congr' fun id => forall_congr' fun x => ?_
  constructor
  · rintro hclosing rfl
    exact h.semicolon_iff.2 (hclosing rfl)
  · rintro hfrom rfl
    exact h.semicolon_iff.1 (hfrom rfl)

end View.InPlace

/-! ## The views of a run -/

/-- Where the current statement of a run stands for something in the program, the view is
built from the program with what the active statement stands for in its place.  It marks
that part where it prints something, except that a name alone is marked only where its
semicolon is printed. -/
theorem view_marked_iff {tree code : List Stmt} {s s' : Supply} {t : State} {st st' : Stmt}
    {n n' : Node} (htree : Source tree s) (hlower : lower (tree.map .filled) s = .ok (code, s'))
    (ht : State.Reaches (.init (code.map .filled) s') t) (hcurrent : t.current = .filled st)
    (hactive : t.active = .filled st') (hn : st.counterpart? = some n)
    (hn' : st'.counterpart? = some n') :
    ∃ v tree' sup', t.view tree = .ok v ∧
      (tree.map Slot.filled).mapM (substituteTop (.filled n) (.filled n')) t.supply =
        .ok (tree'.map .filled, sup') ∧
      (v.range.isSome = true ↔ (∃ f ∈ render tree', f.ownedBy n'.nodes = true) ∧
        ∀ id x, n' = .stmt (.expression id (some (.identifier x))) →
          ∃ f ∈ render tree', f.From [id]) := by
  rw [lower_filled] at hlower
  cases htree.position hlower ht with
  | ended _ hnone =>
    rw [hnone] at hcurrent
    cases hcurrent
  | @inPlace st₀ st₁ n₀ hmem hcurrent₀ hactive₀ hchecked hren =>
    obtain rfl : st₀ = st := Slot.filled.inj (hcurrent₀.symm.trans hcurrent)
    obtain rfl : st₁ = st' := Slot.filled.inj (hactive₀.symm.trans hactive)
    obtain ⟨v, m, closing, tree', hview, hm, hv⟩ :=
      htree.view_inPlace hlower hmem hcurrent hactive hchecked hren hn
    obtain rfl : n' = m := Option.some.inj (hn'.symm.trans hm)
    obtain ⟨sup', hsub⟩ := hv.substituted
    exact ⟨v, tree', sup', hview, hsub, hv.marked_iff hn'⟩
  | @aside st₀ _ hcurrent₀ _ hnone =>
    obtain rfl : st₀ = st := Slot.filled.inj (hcurrent₀.symm.trans hcurrent)
    rw [hnone] at hn
    cases hn

/-- After five steps the update of the program has become `i += 1`. -/
theorem view_marked_iff_doublingProgram :
    Source doublingProgram ⟨14, 0⟩ ∧
      ∃ code s' t n n' v tree' sup', lower (doublingProgram.map .filled) ⟨14, 0⟩ = .ok (code, s') ∧
        (State.init (code.map .filled) s').steps 5 = .ok t ∧
        n = .stmt (.expression 9 (some (.addAssign 10 ⟨11, "i"⟩ (.identifier ⟨12, "i"⟩)))) ∧
        n' = .stmt (.expression 28 (some (.addAssign 27 ⟨11, "i"⟩ (.constant ⟨26, .int 1⟩)))) ∧
        t.view doublingProgram = .ok v ∧
        (doublingProgram.map Slot.filled).mapM (substituteTop (.filled n) (.filled n')) t.supply =
          .ok (tree'.map .filled, sup') ∧
        (v.range.isSome = true ↔ (∃ f ∈ render tree', f.ownedBy n'.nodes = true) ∧
          ∀ id x, n' = .stmt (.expression id (some (.identifier x))) →
            ∃ f ∈ render tree', f.From [id]) := by
  have hsource : Source doublingProgram ⟨14, 0⟩ := by
    refine ⟨?_, by decide, by decide⟩
    simp [doublingProgram, Identifier.Checked, Datatype.declarable, BinaryOp.known]
  obtain ⟨code, s', t, hlower, hsteps, hcurrent, hactive⟩ : ∃ code s' t,
      lower (doublingProgram.map .filled) ⟨14, 0⟩ = .ok (code, s') ∧
        (State.init (code.map .filled) s').steps 5 = .ok t ∧
        t.current = .filled (.expression 9
          (some (.addAssign 10 ⟨11, "i"⟩ (.identifier ⟨12, "i"⟩)))) ∧
        t.active = .filled (.expression 28
          (some (.addAssign 27 ⟨11, "i"⟩ (.constant ⟨26, .int 1⟩)))) :=
    ⟨_, _, _, rfl, rfl, rfl, rfl⟩
  obtain ⟨v, tree', sup', hv⟩ :=
    view_marked_iff hsource hlower ⟨5, hsteps⟩ hcurrent hactive rfl rfl
  exact ⟨hsource, code, s', t, _, _, v, tree', sup', hlower, hsteps, rfl, rfl, hv⟩

/-- The program `for (int x = 0; ; x) {}`, whose update is a name. -/
def idleProgram : List Stmt :=
  [.forLoop 1 (.declaration 2 .int ⟨3, "x"⟩ (some (.constant ⟨4, .int 0⟩)))
    (.expression 5 none) (.expression 6 (some (.identifier ⟨7, "x"⟩))) (.block 8 [])]

/-- After two steps the update is evaluated.  It stands unchanged in the rendering of the
program, which shows its name, and the view marks nothing. -/
theorem idleProgram_unmarked :
    Source idleProgram ⟨9, 0⟩ ∧
      ∃ code s' t n v, lower (idleProgram.map .filled) ⟨9, 0⟩ = .ok (code, s') ∧
        (State.init (code.map .filled) s').steps 2 = .ok t ∧
        n = .stmt (.expression 6 (some (.identifier ⟨7, "x"⟩))) ∧
        t.current.map .stmt = .filled n ∧ t.active.map .stmt = .filled n ∧
        (idleProgram.map Slot.filled).mapM (substituteTop (.filled n) (.filled n)) t.supply =
          .ok (idleProgram.map .filled, t.supply) ∧
        (∃ f ∈ render idleProgram, f.ownedBy n.nodes = true) ∧
        t.view idleProgram = .ok v ∧ v.range = none := by
  have hsource : Source idleProgram ⟨9, 0⟩ := by
    refine ⟨?_, by decide, by decide⟩
    simp [idleProgram, Identifier.Checked, Datatype.declarable]
  have hprints : ((render idleProgram).any fun f =>
      f.ownedBy (Node.stmt (.expression 6 (some (.identifier ⟨7, "x"⟩)))).nodes) = true := by
    decide +kernel
  obtain ⟨code, s', t, hlower, hsteps, hcurrent, hactive, hview⟩ : ∃ code s' t,
      lower (idleProgram.map .filled) ⟨9, 0⟩ = .ok (code, s') ∧
        (State.init (code.map .filled) s').steps 2 = .ok t ∧
        t.current = .filled (.expression 6 (some (.identifier ⟨7, "x"⟩))) ∧
        t.active = .filled (.expression 6 (some (.identifier ⟨7, "x"⟩))) ∧
        (t.view idleProgram).toOption.any (·.range.isNone) = true :=
    ⟨_, _, _, rfl, rfl, rfl, rfl, by decide +kernel⟩
  cases hv : t.view idleProgram with
  | error err =>
    rw [hv] at hview
    cases hview
  | ok v =>
    rw [hv] at hview
    exact ⟨hsource, code, s', t, _, v, hlower, hsteps, rfl, by rw [hcurrent]; rfl,
      by rw [hactive]; rfl, rfl, List.any_eq_true.1 hprints, hv, Option.isNone_iff_eq_none.1 hview⟩

end Stepwise
