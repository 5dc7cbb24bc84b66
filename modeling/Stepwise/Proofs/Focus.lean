import Stepwise.Proofs.Ranges
import Stepwise.Machine.Reduce

/-!
# Proofs - The part that is reduced next

What the next step reduces in an expression is printed as one span of the text of
the expression, nothing around that span comes from it, and some fragment in it
anchors its range.

Main results:

- `Expr.redex_focuses`: the part of an expression that is reduced next.
- `Frame.located`: the text of the expression in a statement.
- `Expr.anchored`: an expression has a range.
-/

namespace Stepwise

/-! ## Parts of expressions -/

/-- A part of an expression that is no constant and can be told from the text around
it. -/
structure Expr.Focuses (e r : Expr) : Prop where
  located : Located r.ids r.fragments e.fragments
  subset : r.ids ⊆ e.ids
  checked : r.Checked
  constant? : r.constant? = none

/-- A node anchors its own range. -/
theorem mem_anchors_self {n : Node} (hn : n ∈ n.nodes) : n ∈ anchors n := by
  by_cases hid : n.isIdentifier = true
  · obtain ⟨i, rfl⟩ : ∃ i, n = .expr (.identifier i) := by
      unfold Node.isIdentifier at hid
      split at hid
      · exact ⟨_, rfl⟩
      · cases hid
    simp [anchors, Node.nodes, Expr.nodes, Identifier.node, Node.isIdentifier]
  · have hmem : n ∈ n.nodes.filter (!·.isIdentifier) := List.mem_filter.2 ⟨hn, by simpa using hid⟩
    unfold anchors
    split
    · exact List.mem_singleton_self n
    · exact hmem

namespace Expr

variable {e v r : Expr}

/-- All of an expression. -/
theorem Focuses.self (he : e.Checked) (hnone : e.constant? = none) : e.Focuses e :=
  ⟨⟨[], [], by simp, by simp⟩, List.Subset.refl _, he, hnone⟩

/-- A part of an operand is a part of the expression, if no identity occurs twice. -/
theorem Focuses.wrap (h : v.Focuses r) (front back : List Fragment) (rest : List Nat)
    (hfrags : e.fragments = front ++ (v.fragments ++ back)) (hids : e.ids.Perm (v.ids ++ rest))
    (hnodup : e.ids.Nodup) (hfrom : Fragment.AllFrom rest (front ++ back)) : e.Focuses r := by
  have hdisj : r.ids.Disjoint rest := by
    have hparts := hids.nodup_iff.1 hnodup
    exact List.disjoint_of_subset_left h.subset (List.disjoint_of_nodup_append hparts)
  refine ⟨?_, ?_, h.checked, h.constant?⟩
  · rw [hfrags]
    exact h.located.wrap front back (hfrom.noneFrom hdisj)
  · exact fun k hk => hids.mem_iff.2 (List.mem_append_left _ (h.subset hk))

/-! ## What is reduced next -/

/-- Settled arguments have no redex. -/
theorem redexArgs_settled {args : List Expr} (h : Settled args) : redexArgs args = none := by
  induction args with
  | nil => rfl
  | cons e es ih =>
    obtain ⟨he, hes⟩ := settled_cons.1 h
    obtain ⟨c, hc⟩ := Option.ne_none_iff_exists'.1 he
    simp [redexArgs, hc, ih hes]

/-- The redex of arguments is that of the first one that is not settled. -/
theorem redexArgs_split {done rest : List Expr} (hdone : Settled done)
    (he : e.constant? = none) : redexArgs (done ++ e :: rest) = some e.redex := by
  induction done with
  | nil => simp [redexArgs, he]
  | cons a done ih =>
    obtain ⟨ha, hdone⟩ := settled_cons.1 hdone
    obtain ⟨c, hc⟩ := Option.ne_none_iff_exists'.1 ha
    simp [redexArgs, hc, ih hdone]

/-- The text of a call around one of its arguments. -/
theorem fragments_invoke_split (id : NodeId) (f : Identifier) (done : List Expr) (e : Expr)
    (rest : List Expr) :
    (invoke id f (done ++ e :: rest)).fragments =
      (f.fragment :: .ofExpr "(" (invoke id f (done ++ e :: rest)) ::
          done.flatMap fun a => a.fragments ++ [.ofExpr ", " (invoke id f (done ++ e :: rest))]) ++
        (e.fragments ++ (moreFragments (.ofExpr ", " (invoke id f (done ++ e :: rest))) rest ++
          [.ofExpr ")" (invoke id f (done ++ e :: rest))])) := by
  have hmore : ∀ (sep : Fragment) (a : Expr) (done : List Expr),
      a.fragments ++ moreFragments sep (done ++ e :: rest) =
        ((a :: done).flatMap fun a => a.fragments ++ [sep]) ++
          (e.fragments ++ moreFragments sep rest) := by
    intro sep a done
    induction done generalizing a with
    | nil => simp [moreFragments]
    | cons b done ih => simp [moreFragments, ih b]
  cases done with
  | nil => simp [fragments]
  | cons a done =>
    simp only [List.cons_append, fragments]
    rw [← List.append_assoc, hmore]
    simp

section Operands

variable {id : NodeId} {op : BinaryOp} {x f : Identifier} {l : Expr} {p : Expr}

/-- A redex that can be told in the left operand can be told in the operation. -/
theorem Focuses.left (h : l.Focuses p) (hnodup : (binary id op l r).ids.Nodup) :
    (binary id op l r).Focuses p := by
  refine h.wrap [] (.ofExpr (" " ++ op.text ++ " ") (.binary id op l r) :: r.fragments)
    (id :: r.ids) rfl ?_ hnodup ?_
  · rw [ids_binary]
    exact List.perm_middle.symm
  · have hfrom : Fragment.AllFrom (id :: r.ids) r.fragments := fun g hg =>
      (fragments_from hg).mono (List.subset_cons_self _ _)
    simpa [Expr.id] using hfrom

/-- A redex that can be told in the right operand can be told in the operation. -/
theorem Focuses.right (h : r.Focuses p) (hnodup : (binary id op l r).ids.Nodup) :
    (binary id op l r).Focuses p := by
  refine h.wrap (l.fragments ++ [.ofExpr (" " ++ op.text ++ " ") (.binary id op l r)]) []
    (id :: l.ids) (by simp [fragments]) ?_ hnodup ?_
  · rw [ids_binary]
    exact (List.perm_append_comm.cons id).trans List.perm_middle.symm
  · have hfrom : Fragment.AllFrom (id :: l.ids) l.fragments := fun g hg =>
      (fragments_from hg).mono (List.subset_cons_self _ _)
    simpa [Expr.id] using hfrom

/-- The value of an assignment stands after the name and the sign. -/
theorem Focuses.value (h : v.Focuses p) (sign : Fragment)
    (hfrags : e.fragments = x.fragment :: sign :: v.fragments)
    (hids : e.ids = id :: x.id :: v.ids) (hnodup : e.ids.Nodup) (hsign : sign.From [id]) :
    e.Focuses p := by
  refine h.wrap [x.fragment, sign] [] [id, x.id] (by simp [hfrags]) ?_ hnodup ?_
  · rw [hids]
    change ([id, x.id] ++ v.ids).Perm _
    exact List.perm_append_comm
  · simpa using hsign.mono (by simp)

/-- Nothing in the text of a call around one of its arguments comes from that
argument. -/
theorem Focuses.argument {done rest : List Expr} (h : v.Focuses p)
    (hnodup : (invoke id f (done ++ v :: rest)).ids.Nodup) :
    (invoke id f (done ++ v :: rest)).Focuses p := by
  have hperm : (invoke id f (done ++ v :: rest)).ids.Perm
      (v.ids ++ id :: f.id :: (done ++ rest).flatMap ids) := by
    rw [List.perm_iff_count]
    intro k
    simp [List.count_cons]
    omega
  have harg : ∀ a ∈ done ++ rest, ∀ g ∈ a.fragments,
      g.From (id :: f.id :: (done ++ rest).flatMap ids) := by
    intro a ha g hg
    refine (fragments_from hg).mono fun k hk => ?_
    exact List.mem_cons_of_mem _ (List.mem_cons_of_mem _ (List.mem_flatMap.2 ⟨a, ha, hk⟩))
  refine h.wrap _ _ _ (fragments_invoke_split id f done v rest) hperm hnodup ?_
  intro g hg
  simp only [List.mem_append, List.mem_cons, List.mem_flatMap, List.not_mem_nil,
    or_false] at hg
  rcases hg with (rfl | rfl | ⟨a, ha, hg | rfl⟩) | hg | rfl
  · simp
  · simp [Expr.id]
  · exact harg a (by simp [ha]) g hg
  · simp [Expr.id]
  · rcases mem_moreFragments hg with rfl | ⟨a, ha, hg⟩
    · simp [Expr.id]
    · exact harg a (by simp [ha]) g hg
  · simp [Expr.id]

end Operands

/-- The part of an expression that is reduced next can be told from the text around
it. -/
theorem redex_focuses (he : e.Checked) (hnone : e.constant? = none) (hnodup : e.ids.Nodup) :
    e.Focuses e.redex := by
  induction e using Expr.induct with
  | identifier i => exact .self he hnone
  | constant c => cases hnone
  | binary id op l r ihl ihr =>
    have hparts : (l.ids ++ r.ids).Nodup := by
      rw [ids_binary] at hnodup
      exact hnodup.of_cons
    have hself : (binary id op l r).Focuses (binary id op l r) := .self he hnone
    rw [redex]
    split
    · rename_i hl
      exact (ihl he.2.1 hl hparts.of_append_left).left hnodup
    · split
      · exact hself
      · split
        · rename_i hr
          exact (ihr he.2.2 hr hparts.of_append_right).right hnodup
        · exact hself
  | assign id x v ih =>
    rw [redex]
    split
    · rename_i hv
      exact (ih he.2 hv hnodup.of_cons.of_cons).value (.ofExpr " = " (.assign id x v)) rfl rfl
        hnodup (by simp [Expr.id])
    · exact .self he hnone
  | addAssign id x v ih =>
    rw [redex]
    split
    · rename_i hv
      exact (ih he.2 hv hnodup.of_cons.of_cons).value (.ofExpr " += " (.addAssign id x v)) rfl
        rfl hnodup (by simp [Expr.id])
    · exact .self he hnone
  | increment id x => exact .self he hnone
  | invoke id f args ih =>
    rw [redex]
    rcases settled_or_split args with hargs | ⟨done, e, rest, rfl, hdone, hnone'⟩
    · rw [redexArgs_settled hargs]
      exact .self he hnone
    · rw [redexArgs_split hdone hnone', Option.getD_some]
      have hmem : e ∈ done ++ e :: rest := by simp
      have hsub : e.ids.Sublist (invoke id f (done ++ e :: rest)).ids := by
        rw [ids_invoke, List.flatMap_append, List.flatMap_cons]
        exact (((List.sublist_append_left _ _).trans (List.sublist_append_right _ _)).cons _).cons _
      exact (ih e hmem (allChecked_iff.1 he.2 e hmem) hnone' (hnodup.sublist hsub)).argument hnodup
  | hole v => exact absurd he (by simp)

/-- A checked expression is a node of its own. -/
theorem mem_nodes_self (he : e.Checked) : Node.expr e ∈ (Node.expr e).nodes := by
  cases e with
  | hole v => exact absurd he (by simp)
  | _ => simp [Node.nodes, nodes, Identifier.node]

/-- An expression that prints something prints a fragment of its own. -/
theorem exists_own_fragment (he : e.Checked) (hne : e.fragments ≠ []) :
    ∃ f ∈ e.fragments, f.owner = .filled (.expr e) := by
  cases e with
  | identifier i => exact ⟨_, List.mem_singleton_self _, rfl⟩
  | constant c =>
    simp only [fragments, Constant.fragments] at hne ⊢
    split
    · rename_i hvoid
      simp [hvoid] at hne
    · exact ⟨_, List.mem_singleton_self _, rfl⟩
  | binary id op l r => exact ⟨_, List.mem_append_right _ (List.mem_cons_self ..), rfl⟩
  | assign id x v | addAssign id x v | increment id x =>
    exact ⟨_, List.mem_cons_of_mem _ (List.mem_cons_self ..), rfl⟩
  | invoke id f args =>
    cases args <;> exact ⟨_, List.mem_cons_of_mem _ (List.mem_cons_self ..), rfl⟩
  | hole v => exact absurd he (by simp)

/-- Only a constant can print nothing. -/
theorem fragments_ne_nil (he : e.Checked) (hnone : e.constant? = none) : e.fragments ≠ [] := by
  cases e with
  | constant c => cases hnone
  | invoke id f args => cases args <;> simp [fragments]
  | hole v => exact absurd he (by simp)
  | _ => simp [fragments]

/-- An expression that prints something anchors its range. -/
theorem anchored_of_ne_nil (he : e.Checked) (hne : e.fragments ≠ []) :
    (Node.expr e).Anchored e.fragments := by
  obtain ⟨f, hf, howner⟩ := exists_own_fragment he hne
  refine ⟨f, hf, ?_⟩
  simp only [Fragment.ownedBy, howner, List.any_eq_true]
  exact ⟨_, mem_anchors_self (mem_nodes_self he), by simp [Node.same]⟩

/-- Every expression but a constant has a fragment that anchors its range. -/
theorem anchored (he : e.Checked) (hnone : e.constant? = none) :
    (Node.expr e).Anchored e.fragments :=
  anchored_of_ne_nil he (fragments_ne_nil he hnone)

end Expr

/-- A checked node is one of its own nodes. -/
theorem Node.Checked.mem_nodes_self {n : Node} (h : n.Checked) : n ∈ n.nodes := by
  cases n with
  | expr e => exact Expr.mem_nodes_self h
  | stmt s => cases s <;> simp [Node.nodes, Stmt.nodes]

/-! ## Parts of statements -/

/-- The redex of a frame is that of its expression, or the statement once that is a constant. -/
theorem Stmt.redex_fill (frame : Frame) (id : NodeId) (e : Expr) :
    (frame.fill id e).redex = match e.constant? with
      | none => .expr e.redex
      | some _ => .stmt (frame.fill id e) := by
  cases frame <;> cases h : e.constant? <;>
    simp [Frame.fill, Stmt.redex, Expr.redex?, h]

/-- The part of an expression that is reduced next can be told from the text of the
statement around it. -/
theorem Frame.located {frame : Frame} {id : NodeId} {e r : Expr} {n : Node} {closing : Bool}
    (h : e.Focuses r) (hnodup : (frame.fill id e).ids.Nodup)
    (hn : (frame.fill id e).counterpart? = some n) (hclosing : n = .expr e → closing = false) :
    Located r.ids r.fragments (n.span closing) := by
  cases frame with
  | expression =>
    cases hn
    have hdisj : r.ids.Disjoint [id] := by
      have hparts : ([id] ++ e.ids).Nodup := hnodup
      exact fun k hk hid => List.disjoint_of_nodup_append hparts hid (h.subset hk)
    have hfrom := Fragment.trim_semicolon_from closing (.expression id (some e))
    rw [Node.span, Node.fragments, Frame.fill, Stmt.fragments, Fragment.trim_append _ _ (by simp)]
    exact h.located.wrap [] _ (hfrom.noneFrom hdisj)
  | declaration t x =>
    cases hn
    have hdisj : r.ids.Disjoint [id, x.id] := by
      have hparts : ([id, x.id] ++ e.ids).Nodup := hnodup
      exact fun k hk hid => List.disjoint_of_nodup_append hparts hid (h.subset hk)
    have hfrom : Fragment.AllFrom [id, x.id]
        ([.ofStmt (t.text ++ " ") (.declaration id t x (some e)), x.fragment,
            .ofStmt " = " (.declaration id t x (some e))] ++
          Fragment.trim closing [.ofStmt ";" (.declaration id t x (some e))]) := by
      have hsemi := Fragment.trim_semicolon_from closing (.declaration id t x (some e))
      simp only [Fragment.allFrom_append, Fragment.allFrom_cons, Fragment.from_ofStmt,
        Fragment.from_fragment, Stmt.id]
      exact ⟨by simp, fun f hf => (hsemi f hf).mono (by simp [Stmt.id])⟩
    rw [Node.span, Node.fragments, Frame.fill, Stmt.fragments, Fragment.trim_cons _ _ (by simp),
      Fragment.trim_cons _ _ (by simp), Fragment.trim_append _ _ (by simp)]
    exact h.located.wrap _ _ (hfrom.noneFrom hdisj)
  | condJump t f o =>
    cases hn
    rw [hclosing rfl]
    exact h.located

end Stepwise
