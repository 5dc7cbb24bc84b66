import Stepwise.Proofs.Occurrence
import Stepwise.Syntax.Substitute

/-!
# Proofs - Replacing an occurrence

Substitution looks for a node by its identity and builds everything above it
anew.  Where the node does not occur nothing changes and no identity is drawn.
Where it occurs once the outcome is the same tree with another node in its place,
and nothing of what stands around that node carries one of its identities.

Main results:

- `Expr.replace?_absent` and `Stmt.replace?_absent`: a node that does not occur.
- `Grafted.nodup`: no identity occurs twice after a replacement.
- `Stmt.Holds.replace`: a node that occurs.
- `Stmt.Swapped.checked`: what is built with another node can be built.
-/

namespace Stepwise

section Absent

variable {target : NodeId} {repl : Operand} {s : Supply}

/-! ## Nodes that do not occur -/

/-- Nothing is replaced in expressions none of which holds the target. -/
private theorem Expr.replaceList?_absent {es : List Expr}
    (ih : ∀ e ∈ es, e.replace? target repl s = .ok (none, s)) :
    Expr.replaceList? target repl es s = .ok (none, s) := by
  induction es with
  | nil => rfl
  | cons e es ihes =>
    have he := ih e (by simp)
    have hes := ihes fun e he => ih e (by simp [he])
    simp [Expr.replaceList?, he, hes]

/-- Nothing is replaced in an expression without the node. -/
theorem Expr.replace?_absent {e : Expr} (he : e.Checked) (h : target ∉ e.ids) :
    e.replace? target repl s = .ok (none, s) := by
  induction e using Expr.induct with
  | identifier i =>
    have hid : i.id ≠ target := fun hk => h (by simp [hk])
    simp [Expr.replace?, Expr.id, hid]
  | constant c =>
    have hid : c.id ≠ target := fun hk => h (by simp [hk])
    simp [Expr.replace?, Expr.id, hid]
  | binary id op l r ihl ihr =>
    simp only [Expr.ids_binary, List.mem_cons, List.mem_append, not_or] at h
    simp [Expr.replace?, Expr.id, Ne.symm h.1, ihl he.2.1 h.2.1, ihr he.2.2 h.2.2]
  | assign id x v ih =>
    simp only [Expr.ids_assign, List.mem_cons, not_or] at h
    simp [Expr.replace?, Expr.id, Ne.symm h.1, Ne.symm h.2.1, ih he.2 h.2.2]
  | addAssign id x v ih =>
    simp only [Expr.ids_addAssign, List.mem_cons, not_or] at h
    simp [Expr.replace?, Expr.id, Ne.symm h.1, Ne.symm h.2.1, ih he.2 h.2.2]
  | increment id x =>
    simp only [Expr.ids_increment, List.mem_cons, List.not_mem_nil, or_false, not_or] at h
    simp [Expr.replace?, Expr.id, Ne.symm h.1, Ne.symm h.2]
  | invoke id f args ih =>
    simp only [Expr.ids_invoke, List.mem_cons, List.mem_flatMap, not_or, not_exists, not_and] at h
    have hargs := Expr.replaceList?_absent fun e hmem =>
      ih e hmem (Expr.allChecked_iff.1 he.2 e hmem) (h.2.2 e hmem)
    simp [Expr.replace?, Expr.id, Ne.symm h.1, Ne.symm h.2.1, hargs]
  | hole v => exact absurd he (by simp)

private theorem Expr.replaceOption?_absent {v : Option Expr} (hv : Expr.OptionChecked v)
    (h : target ∉ Expr.optionIds v) : Expr.replaceOption? target repl v s = .ok (none, s) := by
  cases v with
  | none => rfl
  | some e => exact Expr.replace?_absent hv h

/-- Nothing is replaced in statements none of which holds the target. -/
private theorem Stmt.replaceList?_absent {ss : List Stmt}
    (ih : ∀ st ∈ ss, st.replace? target repl s = .ok (none, s)) :
    Stmt.replaceList? target repl ss s = .ok (none, s) := by
  induction ss with
  | nil => rfl
  | cons st ss ihss =>
    have hst := ih st (by simp)
    have hss := ihss fun st hst => ih st (by simp [hst])
    simp [Stmt.replaceList?, hst, hss]

/-- Nothing is replaced in a statement without the node. -/
theorem Stmt.replace?_absent {st : Stmt} (hst : st.Checked) (h : target ∉ st.ids) :
    st.replace? target repl s = .ok (none, s) := by
  induction st using Stmt.induct with
  | expression id v =>
    simp only [Stmt.ids_expression, List.mem_cons, not_or] at h
    simp [Stmt.replace?, Stmt.id, Ne.symm h.1, Expr.replaceOption?_absent hst h.2]
  | declaration id t x v =>
    simp only [Stmt.ids_declaration, List.mem_cons, not_or] at h
    simp [Stmt.replace?, Stmt.id, Ne.symm h.1, Ne.symm h.2.1,
      Expr.replaceOption?_absent hst.2.2 h.2.2]
  | block id ss ih =>
    simp only [Stmt.ids_block, List.mem_cons, not_or] at h
    have hss := Stmt.replaceList?_absent fun st hmem =>
      ih st hmem (Stmt.allChecked_iff.1 hst st hmem) fun hk =>
        h.2 (Stmt.mem_listIds.2 ⟨st, hmem, hk⟩)
    simp [Stmt.replace?, Stmt.id, Ne.symm h.1, hss]
  | forLoop id i c u b ihi ihc ihu ihb =>
    simp only [Stmt.ids_forLoop, List.mem_cons, List.mem_append, not_or] at h
    simp [Stmt.replace?, Stmt.id, Ne.symm h.1, ihi hst.1 h.2.1, ihc hst.2.1 h.2.2.1,
      ihu hst.2.2.1 h.2.2.2.1, ihb hst.2.2.2 h.2.2.2.2]
  | ifThen id c b ih =>
    simp only [Stmt.ids_ifThen, List.mem_cons, List.mem_append, not_or] at h
    simp [Stmt.replace?, Stmt.id, Ne.symm h.1, Expr.replace?_absent hst.1 h.2.1, ih hst.2 h.2.2]
  | label l =>
    have hid : l.id ≠ target := fun hk => h (by simp [hk])
    simp [Stmt.replace?, Stmt.id, hid]
  | jump id l =>
    have hid : id ≠ target := fun hk => h (by simp [hk])
    simp [Stmt.replace?, Stmt.id, hid]
  | condJump id c t f o _ =>
    simp only [Stmt.ids_condJump, List.mem_cons, not_or] at h
    simp [Stmt.replace?, Stmt.id, Ne.symm h.1, Expr.replace?_absent hst.1 h.2]
  | undeclaration id x =>
    simp only [Stmt.ids_undeclaration, List.mem_cons, List.not_mem_nil, or_false, not_or] at h
    simp [Stmt.replace?, Stmt.id, Ne.symm h.1, Ne.symm h.2]

end Absent

/-! ## Identities after a replacement -/

/-- The identities of a whole before and after a part of it was replaced.  Those of the part
give way to those of the new one.  What stands beside it keeps its identities or is built anew,
with the identities from `a` up to `b`, each used once. -/
structure Grafted (old new : List Nat) (a : Nat) (whole whole' : List Nat) (b : Nat) : Prop where
  le : a ≤ b
  ids : ∃ kept, (old ++ kept).Subperm whole ∧
    whole'.Perm (new ++ (kept ++ List.range' a (b - a)))

namespace Grafted

variable {old new part part' whole whole' rest : List Nat} {a b id : Nat}

/-- The whole is replaced. -/
theorem root (old new : List Nat) (a : Nat) : Grafted old new a old new a :=
  ⟨Nat.le_refl a, [], by simp [List.Subperm.refl], by simp⟩

/-- A part that stays where it is. -/
theorem same (h : part.Subperm whole) (a : Nat) : Grafted part part a whole whole a := by
  obtain ⟨ids, hperm, hsub⟩ := h
  obtain ⟨kept, hkept⟩ := hsub.exists_perm_append
  have hwhole : whole.Perm (part ++ kept) := hkept.trans (hperm.append_right kept)
  exact ⟨Nat.le_refl a, kept, hwhole.symm.subperm, by simpa using hwhole⟩

/-- What stands beside a part in a list is kept. -/
theorem beside (h : Grafted old new a part part' b) (hwhole : whole.Perm (part ++ rest))
    (hwhole' : whole'.Perm (part' ++ rest)) : Grafted old new a whole whole' b := by
  obtain ⟨kept, hsub, hperm⟩ := h.ids
  refine ⟨h.le, kept ++ rest, ?_, hwhole'.trans ?_⟩
  · rw [← List.append_assoc]
    exact ((List.subperm_append_right rest).2 hsub).trans hwhole.symm.subperm
  · refine (hperm.append_right rest).trans (List.perm_iff_count.2 fun k => ?_)
    simp only [List.count_append]
    omega

/-- What stands above a part is built anew, under the next identity. -/
theorem above (h : Grafted old new a part part' b) (hwhole : whole.Perm (part ++ id :: rest))
    (hwhole' : whole'.Perm (part' ++ b :: rest)) : Grafted old new a whole whole' (b + 1) := by
  obtain ⟨kept, hsub, hperm⟩ := h.ids
  have hle := h.le
  have hrange : List.range' a (b + 1 - a) = List.range' a (b - a) ++ [b] := by
    rw [Nat.succ_sub hle, List.range'_concat, Nat.one_mul, Nat.add_sub_cancel' hle]
  refine ⟨Nat.le_succ_of_le hle, kept ++ rest, ?_, hwhole'.trans ?_⟩
  · rw [← List.append_assoc]
    refine List.Subperm.trans ?_ hwhole.symm.subperm
    exact ((List.subperm_append_right rest).2 hsub).trans
      ((List.sublist_cons_self id rest).append_left part).subperm
  · refine (hperm.append_right (b :: rest)).trans (List.perm_iff_count.2 fun k => ?_)
    simp only [hrange, List.count_append, List.count_cons, List.count_nil]
    omega

/-- Where the identities after a replacement are from. -/
theorem mem (h : Grafted old new a whole whole' b) {k : Nat} (hk : k ∈ whole') :
    k ∈ new ∨ k ∈ whole ∨ a ≤ k ∧ k < b := by
  obtain ⟨kept, hsub, hperm⟩ := h.ids
  have hle := h.le
  rw [hperm.mem_iff, List.mem_append, List.mem_append, List.mem_range'_1] at hk
  rcases hk with hk | hk | hk
  · exact .inl hk
  · exact .inr (.inl (hsub.subset (List.mem_append_right old hk)))
  · exact .inr (.inr (by omega))

/-- The new part is there after a replacement. -/
theorem subset (h : Grafted old new a whole whole' b) : new ⊆ whole' := by
  obtain ⟨kept, -, hperm⟩ := h.ids
  exact fun k hk => hperm.mem_iff.2 (List.mem_append_left _ hk)

/-- No identity occurs twice after a replacement, if none did before and what was not replaced
has none of the new identities. -/
theorem nodup (h : Grafted old new a whole whole' b) (hwhole : whole.Nodup)
    (hlt : ∀ k ∈ whole, k < a) (hnew : new.Nodup) (hnewlt : ∀ k ∈ new, k < a)
    (haway : ∀ k ∈ whole, k ∉ old → k ∉ new) : whole'.Nodup := by
  obtain ⟨kept, hsub, hperm⟩ := h.ids
  have hkept : ∀ k ∈ kept, k ∈ whole := fun k hk => hsub.subset (List.mem_append_right old hk)
  have hparts : (old ++ kept).Nodup := by
    obtain ⟨ids, hids, hsublist⟩ := hsub
    exact hids.nodup_iff.1 (hwhole.sublist hsublist)
  have hdisj := List.disjoint_of_nodup_append hparts
  rw [hperm.nodup_iff, List.nodup_append', List.nodup_append']
  refine ⟨hnew, ⟨hparts.of_append_right, List.nodup_range', fun k hk hk' => ?_⟩, fun k hk hk' => ?_⟩
  · have hfresh := (List.mem_range'_1.1 hk').1
    exact absurd (hlt k (hkept k hk)) (Nat.not_lt.2 hfresh)
  · rcases List.mem_append.1 hk' with hk' | hk'
    · exact haway k (hkept k hk') (fun hold => hdisj hold hk') hk
    · have hfresh := (List.mem_range'_1.1 hk').1
      exact absurd (hnewlt k hk) (Nat.not_lt.2 hfresh)

end Grafted

/-! ## Nodes that occur -/

/-- An expression that is the target is replaced whole. -/
theorem Expr.replace?_self {repl : Operand} (e : Expr) (s : Supply) :
    e.replace? e.id repl s = .ok (some repl, s) := by
  cases e <;> simp [Expr.replace?]

theorem Stmt.replace?_self {repl : Operand} (st : Stmt) (s : Supply) :
    st.replace? st.id repl s = .ok (some repl, s) := by
  cases st <;> simp [Stmt.replace?]

/-- A statement that was built as the outcome of a replacement. -/
theorem replacedStmt_apply {x : Build NodeError Stmt} {st : Stmt} {s s' : Supply}
    (h : x s = .ok (st, s')) :
    (do return some (Operand.stmt (← x)) : Build NodeError (Option Operand)) s =
      .ok (some (.stmt st), s') := by
  simp [h]

namespace Shell

/-- What stands around a statement as checked builders produce it. -/
def Checked : Shell → Prop
  | ifBody c => c.Checked
  | member pre post => Stmt.AllChecked pre ∧ Stmt.AllChecked post
  | forInit c u b => c.Checked ∧ u.Checked ∧ b.Checked
  | forCond i u b => i.Checked ∧ u.Checked ∧ b.Checked
  | forUpdate i c b => i.Checked ∧ c.Checked ∧ b.Checked
  | forBody i c u => i.Checked ∧ c.Checked ∧ u.Checked

/-- A filled shell is checked when the shell and what fills it are. -/
theorem checked_fill {shell : Shell} {id : NodeId} {s : Stmt} :
    (shell.fill id s).Checked ↔ shell.Checked ∧ s.Checked := by
  cases shell <;> simp [fill, Checked, Stmt.allChecked_append] <;>
    tauto

variable {shell : Shell} {id target : NodeId} {repl : Operand} {s s' : Stmt} {sup sup' : Supply}

/-- Replacing in the first of a list of statements that holds the target. -/
private theorem replaceList?_member {pre : List Stmt} (post : List Stmt)
    (hpre : Stmt.AllChecked pre) (habs : target ∉ Stmt.listIds pre)
    (h : s.replace? target repl sup = .ok (some (.stmt s'), sup')) :
    Stmt.replaceList? target repl (pre ++ s :: post) sup =
      .ok (some ((pre ++ s' :: post).map .stmt), sup') := by
  induction pre with
  | nil => simp [Stmt.replaceList?, h]
  | cons st pre ih =>
    simp only [Stmt.listIds_cons, List.mem_append, not_or] at habs
    simp [Stmt.replaceList?, Stmt.replace?_absent hpre.1 habs.1, ih hpre.2 habs.2]

/-- A node that is replaced in a part and does not stand around it. -/
theorem replace?_fill (hshell : shell.Checked) (hid : id ≠ target) (habs : target ∉ shell.ids)
    (h : s.replace? target repl sup = .ok (some (.stmt s'), sup')) :
    (shell.fill id s).replace? target repl sup =
      .ok (some (.stmt (shell.fill sup'.node s')), sup'.next) := by
  cases shell with
  | ifBody c =>
    have hc : c.replace? target repl sup = .ok (none, sup) := Expr.replace?_absent hshell habs
    simp only [fill, Stmt.replace?, Stmt.id, hid, ↓reduceIte, Build.bind_apply, hc, h]
    exact replacedStmt_apply (by simp [Operand.expr_of_checked hshell, Build.ifThen_apply])
  | member pre post =>
    simp only [ids, List.mem_append, not_or] at habs
    have hpre := replaceList?_member post hshell.1 habs.1 h
    simp only [fill, Stmt.replace?, Stmt.id, hid, ↓reduceIte, Build.bind_apply, hpre]
    exact replacedStmt_apply (Build.block_apply _ _)
  | forInit c u b =>
    simp only [fill, Stmt.replace?, Stmt.id, hid, ↓reduceIte, Build.bind_apply, h]
    exact replacedStmt_apply (Build.forLoop_apply ..)
  | forCond i u b =>
    simp only [ids, List.mem_append, not_or] at habs
    have hi : i.replace? target repl sup = .ok (none, sup) := Stmt.replace?_absent hshell.1 habs.1
    simp only [fill, Stmt.replace?, Stmt.id, hid, ↓reduceIte, Build.bind_apply, hi, h]
    exact replacedStmt_apply (Build.forLoop_apply ..)
  | forUpdate i c b =>
    simp only [ids, List.mem_append, not_or] at habs
    have hi : i.replace? target repl sup = .ok (none, sup) := Stmt.replace?_absent hshell.1 habs.1
    have hc : c.replace? target repl sup = .ok (none, sup) :=
      Stmt.replace?_absent hshell.2.1 habs.2.1
    simp only [fill, Stmt.replace?, Stmt.id, hid, ↓reduceIte, Build.bind_apply, hi, hc, h]
    exact replacedStmt_apply (Build.forLoop_apply ..)
  | forBody i c u =>
    simp only [ids, List.mem_append, not_or] at habs
    have hi : i.replace? target repl sup = .ok (none, sup) := Stmt.replace?_absent hshell.1 habs.1
    have hc : c.replace? target repl sup = .ok (none, sup) :=
      Stmt.replace?_absent hshell.2.1 habs.2.1
    have hu : u.replace? target repl sup = .ok (none, sup) :=
      Stmt.replace?_absent hshell.2.2 habs.2.2
    simp only [fill, Stmt.replace?, Stmt.id, hid, ↓reduceIte, Build.bind_apply, hi, hc, hu, h]
    exact replacedStmt_apply (Build.forLoop_apply ..)

end Shell

/-- A node as checked builders produce it. -/
def Node.Checked : Node → Prop
  | .expr e => e.Checked
  | .stmt s => s.Checked

/-- The first identity of a checked node is its own. -/
theorem Node.Checked.head?_ids {n : Node} (h : n.Checked) : n.ids.head? = some n.id := by
  cases n with
  | expr e => exact Expr.head?_ids h
  | stmt s => exact Stmt.head?_ids s

/-- A checked node has its own identity. -/
theorem Node.Checked.id_mem_ids {n : Node} (h : n.Checked) : n.id ∈ n.ids :=
  List.mem_of_mem_head? h.head?_ids

/-- What a checked statement stands for is checked. -/
theorem Stmt.Checked.counterpart {st : Stmt} {n : Node} (h : st.Checked)
    (hn : st.counterpart? = some n) : n.Checked := by
  rcases Stmt.counterpart?_eq_some hn with ⟨-, rfl⟩ | ⟨id, c, t, f, o, rfl, rfl⟩
  · exact h
  · exact h.1

/-- One node may replace another one of its class; statements are simple ones. -/
inductive Node.Exchanges : Node → Node → Prop
  | stmt {s s' : Stmt} : s.isSimple = true → s'.isSimple = true → Exchanges (.stmt s) (.stmt s')
  | expr (e e' : Expr) : Exchanges (.expr e) (.expr e')

/-- A statement in which a node stands, and that statement with another node in its
place.  All that is above the node may have another identity, and none that stands
around the new node is one of its own.  The marks are those of `Stmt.Holds`. -/
inductive Stmt.Swapped (n n' : Node) : Bool → Stmt → Bool → Stmt → Prop
  | here {last : Bool} {s s' : Stmt} : n = .stmt s → n' = .stmt s' → s.isSimple = true →
      s'.isSimple = true → Swapped n n' last s last s'
  | value {last : Bool} {id id' : NodeId} {e e' : Expr} : n = .expr e → n' = .expr e' →
      n'.ids.Disjoint [id'] →
      Swapped n n' last (.expression id (some e)) false (.expression id' (some e'))
  | ifCond {last : Bool} {id id' : NodeId} {c c' : Expr} {b : Stmt} : n = .expr c →
      n' = .expr c' → n'.ids.Disjoint (id' :: b.ids) →
      Swapped n n' last (.ifThen id c b) false (.ifThen id' c' b)
  | inside {last closing : Bool} {id id' : NodeId} {s s' : Stmt} (shell : Shell) :
      Swapped n n' (shell.closes last) s closing s' → n'.ids.Disjoint (id' :: shell.ids) →
      Swapped n n' last (shell.fill id s) closing (shell.fill id' s')

section Holds

variable {n n' : Node} {last closing : Bool} {S : Stmt} {sup : Supply}

/-- What stands around an occurrence has none of the new identities, if those that
were not replaced are none of them and what is built gets a later one. -/
private theorem disjoint_around {whole part rest old new : List Nat} {id id' : Nat}
    (hperm : whole.Perm (part ++ id :: rest)) (hnodup : whole.Nodup) (hold : old ⊆ part)
    (haway : ∀ k ∈ whole, k ∉ old → k ∉ new) (hid' : ∀ k ∈ new, k < id') :
    new.Disjoint (id' :: rest) := by
  rw [hperm.nodup_iff, List.nodup_append'] at hnodup
  intro k hk hrest
  rcases List.mem_cons.1 hrest with rfl | hrest
  · exact Nat.lt_irrefl k (hid' k hk)
  · have hwhole : k ∈ whole := hperm.mem_iff.2 (by simp [hrest])
    refine haway k hwhole (fun hkold => ?_) hk
    exact hnodup.2.2 (hold hkold) (List.mem_cons_of_mem id hrest)

/-- The replacement of a node that occurs in a statement. -/
theorem Stmt.Holds.replace (h : S.Holds n last closing) (hS : S.Checked) (hnodup : S.ids.Nodup)
    (hid : n.id ∈ n.ids) (hex : n.Exchanges n') (hnew : ∀ k ∈ n'.ids, k < sup.node)
    (haway : ∀ k ∈ S.ids, k ∉ n.ids → k ∉ n'.ids) :
    ∃ S' sup', S.replace? n.id (.filled n') sup = .ok (some (.stmt S'), sup') ∧
      S.Swapped n n' last closing S' ∧ Grafted n.ids n'.ids sup.node S.ids S'.ids sup'.node := by
  induction h with
  | here hn hs =>
    subst hn
    cases hex with
    | @stmt _ s' _ hs' =>
    exact ⟨s', sup, Stmt.replace?_self _ sup, .here rfl rfl hs hs', .root ..⟩
  | @value last e id hn =>
    subst hn
    cases hex with
    | expr _ e' =>
    have hne : id ≠ e.id := by
      rintro rfl
      exact (List.nodup_cons.1 hnodup).1 hid
    refine ⟨.expression sup.node (some e'), sup.next, ?_, ?_, ?_⟩
    · simp only [Stmt.replace?, Stmt.id, Node.id, hne, ↓reduceIte, Build.bind_apply,
        Expr.replaceOption?, Expr.replace?_self]
      exact replacedStmt_apply (Build.expression_apply e' sup)
    · have hperm := (List.perm_append_singleton id e.ids).symm
      exact .value rfl rfl (disjoint_around hperm hnodup (List.Subset.refl _) haway hnew)
    · exact (Grafted.root ..).above (List.perm_append_singleton ..).symm
        (List.perm_append_singleton ..).symm
  | @ifCond last c id b hn =>
    subst hn
    cases hex with
    | expr _ c' =>
    have hne : id ≠ c.id := by
      rintro rfl
      rw [Stmt.ids_ifThen] at hnodup
      exact (List.nodup_cons.1 hnodup).1 (List.mem_append_left _ hid)
    refine ⟨.ifThen sup.node c' b, sup.next, ?_, ?_, ?_⟩
    · simp only [Stmt.replace?, Stmt.id, Node.id, hne, ↓reduceIte, Build.bind_apply,
        Expr.replace?_self]
      exact replacedStmt_apply (Build.ifThen_apply c' b sup)
    · rw [Stmt.ids_ifThen] at hnodup haway
      exact .ifCond rfl rfl
        (disjoint_around List.perm_middle.symm hnodup (List.Subset.refl _) haway hnew)
    · rw [Stmt.ids_ifThen, Stmt.ids_ifThen]
      exact (Grafted.root ..).above List.perm_middle.symm List.perm_middle.symm
  | @inside last closing s shell id h ih =>
    have hperm := shell.ids_fill id s
    have hparts := hnodup
    rw [hperm.nodup_iff, List.nodup_append'] at hparts
    obtain ⟨hshell, hs⟩ := Shell.checked_fill.1 hS
    have hsub : n.ids ⊆ s.ids := h.subperm.subset
    obtain ⟨s', sup', hrep, hswap, hgraft⟩ := ih hs hparts.1 fun k hk =>
      haway k (hperm.mem_iff.2 (List.mem_append_left _ hk))
    have hlt : ∀ k ∈ n'.ids, k < sup'.node := fun k hk => Nat.lt_of_lt_of_le (hnew k hk) hgraft.le
    have hrest : n.id ∉ id :: shell.ids := fun hk => hparts.2.2 (hsub hid) hk
    rw [List.mem_cons, not_or] at hrest
    refine ⟨_, _, Shell.replace?_fill hshell (Ne.symm hrest.1) hrest.2 hrep, ?_, ?_⟩
    · exact .inside shell hswap (disjoint_around hperm hnodup hsub haway hlt)
    · exact hgraft.above hperm (shell.ids_fill sup'.node s')

/-- What a checked statement holds is checked. -/
theorem Stmt.Holds.checked (h : S.Holds n last closing) (hS : S.Checked) : n.Checked := by
  induction h with
  | here hn =>
    subst hn
    exact hS
  | value id hn =>
    subst hn
    exact hS
  | ifCond id b hn =>
    subst hn
    exact hS.1
  | inside shell id _ ih => exact ih (Shell.checked_fill.1 hS).2

/-- A statement in which a node stays where it is. -/
theorem Stmt.Holds.swapped_self (h : S.Holds n last closing) (hnodup : S.ids.Nodup) :
    S.Swapped n n last closing S := by
  induction h with
  | here hn hs => exact .here hn hn hs hs
  | @value last e id hn =>
    refine .value hn hn ?_
    subst hn
    have hparts : (e.ids ++ [id]).Nodup := (List.perm_append_singleton id e.ids).nodup_iff.2 hnodup
    exact List.disjoint_of_nodup_append hparts
  | @ifCond last c id b hn =>
    refine .ifCond hn hn ?_
    subst hn
    rw [Stmt.ids_ifThen] at hnodup
    exact List.disjoint_of_nodup_append (List.perm_middle.nodup_iff.2 hnodup)
  | @inside last closing s shell id h ih =>
    have hparts := (shell.ids_fill id s).nodup_iff.1 hnodup
    refine .inside shell (ih hparts.of_append_left) ?_
    exact List.disjoint_of_subset_left h.subperm.subset (List.disjoint_of_nodup_append hparts)

/-- Putting a checked node in the place of another one keeps a statement checked. -/
theorem Stmt.Swapped.checked {S' : Stmt} (h : S.Swapped n n' last closing S') (hS : S.Checked)
    (hn' : n'.Checked) : S'.Checked := by
  induction h with
  | here _ hn =>
    subst hn
    exact hn'
  | value _ hn =>
    subst hn
    exact hn'
  | ifCond _ hn =>
    subst hn
    exact ⟨hn', hS.2⟩
  | inside shell _ _ ih =>
    obtain ⟨hshell, hs⟩ := Shell.checked_fill.1 hS
    exact Shell.checked_fill.2 ⟨hshell, ih hs⟩

end Holds

end Stepwise
