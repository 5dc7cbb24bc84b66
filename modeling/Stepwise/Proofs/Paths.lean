import Stepwise.Proofs.Contraction

/-!
# Proofs - Occurrences by path

One node may occur at several places of a tree, so an occurrence is a path of child
numbers from the root.  The nodes of a checked tree are those at the end of its paths,
and the first occurrence in pre-order is the one with the least path.

Main results:

- `Node.Checked.induct`: induction from the children of a node to the node.
- `Node.mem_nodes_iff`: the nodes of a tree are those at the end of a path.
- `Node.FirstAt.child`: the first occurrence below a child.
-/

namespace Stepwise

namespace Node

variable {n m : Node} {path : List Nat}

/-! ## Children -/

/-- The children of a checked node are checked. -/
theorem Checked.of_mem_children (h : n.Checked) (hm : m ∈ n.children) : m.Checked := by
  cases n with
  | expr e =>
    cases e with
    | identifier | constant | hole => cases hm
    | binary id op l r =>
      obtain ⟨-, hl, hr⟩ : op.known = true ∧ l.Checked ∧ r.Checked := h
      simp only [children, Expr.node?_of_checked hl, Expr.node?_of_checked hr, Option.toList_some,
        List.cons_append, List.nil_append, List.mem_cons, List.not_mem_nil, or_false] at hm
      rcases hm with rfl | rfl
      · exact hl
      · exact hr
    | assign | addAssign =>
      simp only [children, List.mem_cons, List.not_mem_nil, or_false] at hm
      rcases hm with rfl | rfl
      · exact h.1
      · exact h.2
    | increment id x =>
      cases List.mem_singleton.1 hm
      exact h
    | invoke id f args =>
      simp only [children, List.mem_cons, List.mem_map] at hm
      rcases hm with rfl | ⟨e, he, rfl⟩
      · exact h.1
      · exact Expr.allChecked_iff.1 h.2 e he
  | stmt s =>
    cases s with
    | label | jump => cases hm
    | expression id v =>
      cases v with
      | none => cases hm
      | some e =>
        cases List.mem_singleton.1 hm
        exact h
    | declaration id t x v =>
      rcases List.mem_cons.1 hm with rfl | hm
      · exact h.2.1
      · cases v with
        | none => cases hm
        | some e =>
          cases List.mem_singleton.1 hm
          exact h.2.2
    | block id ss =>
      obtain ⟨s, hs, rfl⟩ := List.mem_map.1 hm
      exact Stmt.allChecked_iff.1 h s hs
    | forLoop id i c u b =>
      simp only [children, List.mem_cons, List.not_mem_nil, or_false] at hm
      rcases hm with rfl | rfl | rfl | rfl
      · exact h.1
      · exact h.2.1
      · exact h.2.2.1
      · exact h.2.2.2
    | ifThen id c b =>
      simp only [children, List.mem_cons, List.not_mem_nil, or_false] at hm
      rcases hm with rfl | rfl
      · exact h.1
      · exact h.2
    | condJump id c t f o =>
      cases List.mem_singleton.1 hm
      exact h.1
    | undeclaration id x =>
      cases List.mem_singleton.1 hm
      exact h

/-- The nodes of a checked tree are its root and the nodes of the children. -/
theorem nodes_eq (h : n.Checked) : n.nodes = n :: n.children.flatMap nodes := by
  cases n with
  | expr e =>
    cases e with
    | identifier | constant => rfl
    | binary id op l r =>
      simp [nodes, children, Expr.nodes, Expr.node?_of_checked h.2.1, Expr.node?_of_checked h.2.2]
    | assign | addAssign => simp [nodes, children, Expr.nodes, Identifier.node]
    | increment id x => simp [nodes, children, Expr.nodes, Identifier.node]
    | invoke id f args =>
      simp [nodes, children, Expr.nodes, Identifier.node, Expr.listNodes_eq_flatMap,
        List.flatMap_map]
    | hole v => exact absurd h (by simp [Checked])
  | stmt s =>
    cases s with
    | label | jump => rfl
    | expression id v => cases v <;> simp [nodes, children, Stmt.nodes, Expr.optionNodes]
    | declaration id t x v =>
      cases v <;> simp [nodes, children, Stmt.nodes, Expr.nodes, Expr.optionNodes, Identifier.node]
    | block id ss =>
      simp [nodes, children, Stmt.nodes, Stmt.listNodes_eq_flatMap, List.flatMap_map]
    | forLoop | ifThen | condJump => simp [nodes, children, Stmt.nodes]
    | undeclaration id x => simp [nodes, children, Stmt.nodes, Expr.nodes, Identifier.node]

/-- Induction on a checked tree: what holds of a node if it holds of all its children holds of
every node. -/
@[elab_as_elim]
theorem Checked.induct {P : (n : Node) → n.Checked → Prop}
    (step : ∀ (n : Node) (h : n.Checked), (∀ m (hm : m ∈ n.children), P m (h.of_mem_children hm)) →
      P n h) (n : Node) (h : n.Checked) : P n h := by
  have hlt : ∀ {n m : Node}, n.Checked → m ∈ n.children → m.nodes.length < n.nodes.length := by
    intro n m hn hm
    obtain ⟨front, back, hsplit⟩ := List.append_of_mem hm
    rw [nodes_eq hn, hsplit]
    simp only [List.flatMap_append, List.flatMap_cons, List.length_cons, List.length_append]
    omega
  induction hk : n.nodes.length using Nat.strongRecOn generalizing n with
  | ind k ih =>
    subst hk
    apply step n h
    intro m hm
    exact ih _ (hlt h hm) m (h.of_mem_children hm) rfl

/-! ## Paths -/

/-- A path leads through a child and on from there. -/
theorem at?_cons_eq_some {i : Nat} :
    n.at? (i :: path) = some m ↔ ∃ k, n.children[i]? = some k ∧ k.at? path = some m := by
  rw [at?]
  cases n.children[i]? <;> simp

/-- What stands at the end of a path in a checked tree is checked. -/
theorem Checked.of_at? (h : n.Checked) (hm : n.at? path = some m) : m.Checked := by
  induction path generalizing n with
  | nil =>
    cases hm
    exact h
  | cons i path ih =>
    obtain ⟨k, hk, hm⟩ := at?_cons_eq_some.1 hm
    exact ih (h.of_mem_children (List.mem_of_getElem? hk)) hm

/-- The nodes of a tree are those that stand at the end of a path. -/
theorem mem_nodes_iff (h : n.Checked) : m ∈ n.nodes ↔ ∃ path, n.at? path = some m := by
  constructor
  · intro hm
    induction n, h using Checked.induct with
    | step n h ih =>
      rw [nodes_eq h, List.mem_cons, List.mem_flatMap] at hm
      rcases hm with rfl | ⟨k, hk, hm⟩
      · exact ⟨[], rfl⟩
      · obtain ⟨path, hpath⟩ := ih k hk hm
        obtain ⟨i, hi⟩ := List.getElem?_of_mem hk
        exact ⟨i :: path, at?_cons_eq_some.2 ⟨k, hi, hpath⟩⟩
  · rintro ⟨path, hm⟩
    induction path generalizing n with
    | nil =>
      cases hm
      exact h.mem_nodes_self
    | cons i path ih =>
      obtain ⟨k, hk, hm⟩ := at?_cons_eq_some.1 hm
      have hmem := List.mem_of_getElem? hk
      rw [nodes_eq h]
      exact List.mem_cons_of_mem _ (List.mem_flatMap.2 ⟨k, hmem, ih (h.of_mem_children hmem) hm⟩)

/-- The identities of a checked node are those of the nodes that paths lead to. -/
theorem mem_ids_iff (h : n.Checked) {target : Nat} :
    target ∈ n.ids ↔ ∃ path m, n.at? path = some m ∧ m.id = target := by
  simp only [ids, List.mem_map, mem_nodes_iff h]
  constructor
  · rintro ⟨m, ⟨path, hm⟩, hid⟩
    exact ⟨path, m, hm, hid⟩
  · rintro ⟨path, m, hm, hid⟩
    exact ⟨m, ⟨path, hm⟩, hid⟩

/-! ## The first occurrence -/

/-- The path to the first occurrence of an identity in pre-order, where a node comes before what
is below it and what is below one child before what is below the next. -/
structure FirstAt (n : Node) (target : NodeId) (path : List Nat) : Prop where
  found : ∃ m, n.at? path = some m ∧ m.id = target
  least : ∀ other m, n.at? other = some m → m.id = target → ¬ List.Lex (· < ·) other path

/-- A node that has the identity itself has it first. -/
theorem FirstAt.root {target : NodeId} (h : n.id = target) : n.FirstAt target [] :=
  ⟨⟨n, rfl, h⟩, fun _ _ _ _ => List.not_lex_nil⟩

/-- An identity occurs first at one place only. -/
theorem FirstAt.unique {target : NodeId} {other : List Nat} (h : n.FirstAt target path)
    (h' : n.FirstAt target other) : path = other := by
  obtain ⟨m, hm, hid⟩ := h.found
  obtain ⟨m', hm', hid'⟩ := h'.found
  exact List.le_antisymm (h.least other m' hm' hid') (h'.least path m hm hid)

/-- The first occurrence in a child is the first one in the node, if it is neither the node
itself nor below an earlier child. -/
theorem FirstAt.child {target : NodeId} {i : Nat} (hn : n.Checked) (hid : n.id ≠ target)
    (hm : n.children[i]? = some m)
    (hbefore : ∀ j < i, ∀ k, n.children[j]? = some k → target ∉ k.ids)
    (h : m.FirstAt target path) : n.FirstAt target (i :: path) := by
  constructor
  · obtain ⟨k, hk, hkid⟩ := h.found
    exact ⟨k, at?_cons_eq_some.2 ⟨m, hm, hk⟩, hkid⟩
  · intro other k hk hkid
    cases other with
    | nil =>
      cases hk
      exact absurd hkid hid
    | cons j rest =>
      obtain ⟨c, hc, hk⟩ := at?_cons_eq_some.1 hk
      intro hbelow
      cases hbelow with
      | rel hji =>
        have hchecked := hn.of_mem_children (List.mem_of_getElem? hc)
        exact hbefore j hji c hc ((mem_ids_iff hchecked).2 ⟨rest, k, hk, hkid⟩)
      | cons hrest =>
        rw [hm] at hc
        cases hc
        exact h.least rest k hk hkid hrest

end Node

end Stepwise
