import Stepwise.Proofs.Pieces

/-!
# Proofs - The run of an occurrence

One occurrence of a node is printed as one run of fragments.  What is printed before and after it
comes from other nodes, and the fragments next to it come from nodes above it or are line breaks.

Main results:

- `Node.run?` and `Stmt.listRun?`: the run of an occurrence in the text of a node and of a program.
- `Node.exists_run` and `Stmt.exists_listRun`: every occurrence has its run.
- `Node.exists_printer` and `Stmt.exists_printer`: every fragment is printed for the node that it
  comes from.
-/

namespace Stepwise

/-! ## Runs -/

/-- What is printed before an occurrence of a node, for it, and after it. -/
structure Run where
  front : List Fragment
  span : List Fragment
  back : List Fragment

namespace Run

/-- The whole text. -/
def text (r : Run) : List Fragment :=
  r.front ++ (r.span ++ r.back)

/-- A run of a text that stands inside another one. -/
def wrap (before after : List Fragment) (r : Run) : Run :=
  ⟨before ++ r.front, r.span, r.back ++ after⟩

/-- The text of a wrapped run is the run between what wraps it. -/
theorem text_wrap (before after : List Fragment) (r : Run) :
    (r.wrap before after).text = before ++ (r.text ++ after) := by
  simp [text, wrap]

end Run

/-- Whether a piece is the text of the child of a number. -/
def Piece.isPart (i : Nat) : Piece → Bool
  | own _ => false
  | part j _ _ _ => i == j

/-- The run of fragments that are printed for the occurrence at the end of a path. -/
def Node.run? (n : Node) (last : Bool) (depth : Nat) : List Nat → Option Run
  | [] => some ⟨[], n.textAt last depth, []⟩
  | i :: path =>
    let front := (n.pieces last depth).takeWhile (!·.isPart i)
    match (n.pieces last depth).dropWhile (!·.isPart i) with
    | .part _ m last depth :: back =>
      (m.run? last depth path).map
        (.wrap (front.flatMap (Piece.fragments n)) (back.flatMap (Piece.fragments n)))
    | _ => none

/-- The run of an occurrence below a child is that in the text of the child. -/
theorem Node.run?_cons {n m : Node} {i d depth : Nat} {l last : Bool} {front back : List Piece}
    (h : n.Checked) (hpieces : n.pieces last depth = front ++ .part i m l d :: back)
    (path : List Nat) :
    n.run? last depth (i :: path) = (m.run? l d path).map
      (.wrap (front.flatMap (Piece.fragments n)) (back.flatMap (Piece.fragments n))) := by
  have hfront : ∀ p ∈ front, (!p.isPart i) = true := by
    intro p hp
    cases p with
    | own => rfl
    | part j k l d =>
      have hj := ((children_around h hpieces).2 _ (List.mem_append_left _ hp) k j rfl).1
      simp [Piece.isPart, Ne.symm hj]
  have htake : (n.pieces last depth).takeWhile (!·.isPart i) = front := by
    rw [hpieces, List.takeWhile_append_of_pos hfront]
    simp [Piece.isPart]
  have hdrop : (n.pieces last depth).dropWhile (!·.isPart i) = .part i m l d :: back := by
    rw [hpieces, List.dropWhile_append_of_pos hfront]
    simp [Piece.isPart]
  rw [run?, htake, hdrop]

/-- A node is printed by its own nodes. -/
theorem Node.textAt_from (n : Node) (last : Bool) (depth : Nat) :
    Fragment.AllFrom n.ids (n.textAt last depth) := by
  intro f hf
  cases n with
  | expr e => exact Expr.fragments_from hf
  | stmt s => exact Stmt.fragments_from (Fragment.mem_of_mem_trim hf)

/-! ## What is printed around an occurrence -/

/-- What is printed around an occurrence of a node comes from nodes before and after it, and next
to its text stands that of a node above it, which is no name. -/
structure Run.Around (r : Run) (before after : List Node) : Prop where
  outside : ∀ f ∈ r.front ++ r.back, ∀ o, f.owner = .filled o →
    o.id ∈ (before ++ after).map Node.id
  left : ∀ f ∈ r.front.getLast?, ∀ o, f.owner = .filled o → o ∈ before ∧ o.isIdentifier = false
  right : ∀ f ∈ r.back.head?, ∀ o, f.owner = .filled o → o ∈ before ∧ o.isIdentifier = false

/-- A run inside another text, whose own parts come from further nodes. -/
theorem Run.Around.wrap {r : Run} {before after : List Node} (h : r.Around before after)
    {front back : List Fragment} {earlier later : List Node}
    (houtside : ∀ f ∈ front ++ back, ∀ o, f.owner = .filled o →
      o.id ∈ (earlier ++ later).map Node.id)
    (hleft : ∀ f ∈ front.getLast?, ∀ o, f.owner = .filled o → o ∈ earlier ∧ o.isIdentifier = false)
    (hright : ∀ f ∈ back.head?, ∀ o, f.owner = .filled o → o ∈ earlier ∧ o.isIdentifier = false) :
    (r.wrap front back).Around (earlier ++ before) (after ++ later) := by
  constructor
  case outside =>
    intro f hf o ho
    have hcases : f ∈ r.front ++ r.back ∨ f ∈ front ++ back := by
      simp only [Run.wrap, List.mem_append] at hf ⊢
      tauto
    rcases hcases with hf | hf
    · have hin := h.outside f hf o ho
      simp only [List.map_append, List.mem_append] at hin ⊢
      tauto
    · have hin := houtside f hf o ho
      simp only [List.map_append, List.mem_append] at hin ⊢
      tauto
  case left =>
    intro f hf o ho
    rw [Run.wrap, List.getLast?_append] at hf
    cases hlast : r.front.getLast? with
    | some g =>
      rw [hlast] at hf
      cases hf
      obtain ⟨hmem, hname⟩ := h.left f hlast o ho
      exact ⟨List.mem_append_right _ hmem, hname⟩
    | none =>
      rw [hlast, Option.none_or] at hf
      obtain ⟨hmem, hname⟩ := hleft f hf o ho
      exact ⟨List.mem_append_left _ hmem, hname⟩
  case right =>
    intro f hf o ho
    rw [Run.wrap, List.head?_append] at hf
    cases hhead : r.back.head? with
    | some g =>
      rw [hhead] at hf
      cases hf
      obtain ⟨hmem, hname⟩ := h.right f hhead o ho
      exact ⟨List.mem_append_right _ hmem, hname⟩
    | none =>
      rw [hhead, Option.none_or] at hf
      obtain ⟨hmem, hname⟩ := hright f hf o ho
      exact ⟨List.mem_append_left _ hmem, hname⟩

/-- A list around one of its items. -/
private theorem eq_take_cons_drop {α : Type} {xs : List α} {i : Nat} {x : α}
    (h : xs[i]? = some x) : xs = xs.take i ++ x :: xs.drop (i + 1) := by
  obtain ⟨hi, hget⟩ := List.getElem?_eq_some_iff.1 h
  rw [← hget, ← List.drop_eq_getElem_cons hi, List.take_append_drop]

section Step

variable {n : Node} {i : Nat} {ps : List Piece}

/-- Where the last piece is a text of the node itself, the last fragment comes from the node. -/
theorem Piece.owner_getLast? (h : ∀ p ∈ ps.getLast?, p.isOwn = true) :
    ∀ f ∈ (ps.flatMap (fragments n)).getLast?, f.owner = .filled n := by
  intro f hf
  rcases List.eq_nil_or_concat ps with rfl | ⟨init, p, rfl⟩
  · cases hf
  · cases p with
    | own text =>
      simp only [List.concat_eq_append, List.flatMap_append, List.flatMap_singleton, fragments,
        List.getLast?_concat] at hf
      cases hf
      rfl
    | part j k l d =>
      have hown := h (.part j k l d) (by simp)
      cases hown

/-- Where the first piece is a text of the node itself, the first fragment comes from the
node. -/
theorem Piece.owner_head? (h : ∀ p ∈ ps.head?, p.isOwn = true) :
    ∀ f ∈ (ps.flatMap (fragments n)).head?, f.owner = .filled n := by
  intro f hf
  cases ps with
  | nil => cases hf
  | cons p ps =>
    cases p with
    | own text =>
      cases hf
      rfl
    | part => cases h _ rfl

/-- The nodes of the children of a node before the child of a number, and after it. -/
def Node.nodesBeside (n : Node) (i : Nat) : List Node × List Node :=
  ((n.children.take i).flatMap nodes, (n.children.drop (i + 1)).flatMap nodes)

/-- The nodes of a checked node are itself, those of one child and those beside that child. -/
theorem Node.nodes_split {k : Node} (h : n.Checked) (hk : n.children[i]? = some k) :
    n.nodes = n :: ((n.nodesBeside i).1 ++ (k.nodes ++ (n.nodesBeside i).2)) := by
  rw [nodes_eq h, nodesBeside]
  conv_lhs => rw [eq_take_cons_drop hk]
  rw [List.flatMap_append, List.flatMap_cons]

/-- The fragments of pieces other than one child come from the node and from its other
children. -/
theorem Piece.fragments_from
    (hps : ∀ p ∈ ps, ∀ k j, p.child? = some (k, j) → j ≠ i ∧ n.children[j]? = some k)
    {f : Fragment} (hf : f ∈ ps.flatMap (Piece.fragments n)) {o : Node} (ho : f.owner = .filled o) :
    o.id ∈ (n :: ((n.nodesBeside i).1 ++ (n.nodesBeside i).2)).map Node.id := by
  obtain ⟨p, hp, hf⟩ := List.mem_flatMap.1 hf
  cases p with
  | own text =>
    cases List.mem_singleton.1 hf
    cases ho
    simp
  | part j k l d =>
    obtain ⟨hij, hk⟩ := hps _ hp k j rfl
    obtain ⟨id, hid, hown⟩ := k.textAt_from l d f hf
    rw [ho, Slot.map_filled, Slot.filled.injEq] at hown
    have hmem : k ∈ n.children.take i ++ n.children.drop (i + 1) := by
      rw [List.mem_append, List.mem_iff_getElem?, List.mem_iff_getElem?]
      rcases Nat.lt_or_gt_of_ne hij with hlt | hgt
      · exact .inl ⟨j, by rw [List.getElem?_take_of_lt hlt, hk]⟩
      · refine .inr ⟨j - (i + 1), ?_⟩
        rw [List.getElem?_drop, show i + 1 + (j - (i + 1)) = j by omega, hk]
    have hsub : k.ids ⊆ ((n.nodesBeside i).1 ++ (n.nodesBeside i).2).map Node.id := by
      rw [Node.nodesBeside, ← List.flatMap_append]
      exact List.map_subset _ fun o ho => List.mem_flatMap.2 ⟨k, hmem, ho⟩
    rw [hown]
    exact List.mem_cons_of_mem _ (hsub hid)

/-- A node with a child is no name. -/
theorem Node.isIdentifier_of_child {m : Node} (h : n.children[i]? = some m) :
    n.isIdentifier = false := by
  cases n with
  | expr e =>
    cases e with
    | identifier x => cases h
    | _ => rfl
  | stmt s => rfl

end Step

/-- In the text of a checked tree every occurrence has its run. -/
theorem Node.exists_run {n m : Node} {path : List Nat} (h : n.Checked) (hm : n.at? path = some m)
    (last : Bool) (depth : Nat) :
    ∃ r before after, n.run? last depth path = some r ∧ r.text = n.textAt last depth ∧
      (∃ l d, r.span = m.textAt l d) ∧ n.nodes = before ++ (m.nodes ++ after) ∧
      r.Around before after := by
  induction path generalizing n last depth with
  | nil =>
    cases hm
    refine ⟨⟨[], m.textAt last depth, []⟩, [], [], rfl, ?_, ⟨last, depth, rfl⟩, ?_, ?_⟩
    · simp [Run.text]
    · simp
    · constructor <;> simp
  | cons i path ih =>
    obtain ⟨k, hk, hm⟩ := at?_cons_eq_some.1 hm
    have hchecked := h.of_mem_children (List.mem_of_getElem? hk)
    obtain ⟨front, l, d, back, hpieces⟩ := exists_part h hk last depth
    obtain ⟨r, before, after, hr, htext, hspan, hnodes, haround⟩ := ih hchecked hm l d
    refine ⟨r.wrap (front.flatMap (Piece.fragments n)) (back.flatMap (Piece.fragments n)),
      (n :: (n.nodesBeside i).1) ++ before, after ++ (n.nodesBeside i).2, ?_, ?_, hspan, ?_, ?_⟩
    · rw [run?_cons h hpieces, hr, Option.map_some]
    · rw [Run.text_wrap, htext, n.textAt_eq, hpieces]
      simp [Piece.fragments]
    · rw [nodes_split h hk, hnodes]
      simp
    · have hothers := (children_around h hpieces).2
      obtain ⟨hleft, hright⟩ := own_around hpieces
      have hname : n.isIdentifier = false := isIdentifier_of_child hk
      apply haround.wrap
      · intro f hf o ho
        rw [← List.flatMap_append] at hf
        exact Piece.fragments_from hothers hf ho
      · intro f hf o ho
        rw [Piece.owner_getLast? hleft f hf] at ho
        cases ho
        exact ⟨List.mem_cons_self .., hname⟩
      · intro f hf o ho
        rw [Piece.owner_head? hright f hf] at ho
        cases ho
        exact ⟨List.mem_cons_self .., hname⟩

/-! ## The fragments of a text and the nodes that print them -/

/-- An item in the image of a list is in the image of one of its members. -/
private theorem exists_of_flatMap_eq {α β : Type} {g : α → List β} {xs : List α} {a b : List β}
    {y : β} (h : xs.flatMap g = a ++ y :: b) :
    ∃ front x back a' b', xs = front ++ x :: back ∧ g x = a' ++ y :: b' ∧
      a = front.flatMap g ++ a' := by
  induction xs generalizing a with
  | nil =>
    rw [List.flatMap_nil] at h
    exact absurd h.symm (by simp)
  | cons x xs ih =>
    rw [List.flatMap_cons, List.append_eq_append_iff] at h
    rcases h with ⟨a', rfl, hrest⟩ | ⟨b', hx, hrest⟩
    · obtain ⟨front, x', back, a'', b'', rfl, hx', rfl⟩ := ih hrest
      exact ⟨x :: front, x', back, a'', b'', rfl, hx', by simp⟩
    · cases b' with
      | nil =>
        obtain ⟨front, x', back, a'', b'', rfl, hx', hnil⟩ := ih (a := []) hrest.symm
        refine ⟨x :: front, x', back, a'', b'', rfl, hx', ?_⟩
        rw [List.flatMap_cons, List.append_assoc, ← hnil, hx, List.append_nil, List.append_nil]
      | cons y' b' =>
        cases hrest
        exact ⟨[], x, xs, a, b', rfl, hx, rfl⟩

/-- Every fragment is printed for the node that it comes from. -/
theorem Node.exists_printer {n : Node} (h : n.Checked) {last : Bool} {depth : Nat}
    {a b : List Fragment} {f : Fragment} (htext : n.textAt last depth = a ++ f :: b) :
    ∃ path m r, n.at? path = some m ∧ f.owner = .filled m ∧ n.run? last depth path = some r ∧
      r.front.length ≤ a.length ∧ a.length < r.front.length + r.span.length := by
  induction n, h using Checked.induct generalizing last depth a b with
  | step n h ih =>
    have hpieces := htext
    rw [n.textAt_eq] at hpieces
    obtain ⟨front, p, back, a', b', hsplit, hp, rfl⟩ := exists_of_flatMap_eq hpieces
    cases p with
    | own text =>
      obtain rfl : f = ⟨text, .filled n⟩ := by
        have hf : f ∈ Piece.fragments n (.own text) := by simp [hp]
        exact List.mem_singleton.1 hf
      refine ⟨[], n, ⟨[], n.textAt last depth, []⟩, rfl, rfl, rfl, Nat.zero_le _, ?_⟩
      rw [htext]
      simp only [List.length_append, List.length_cons, List.length_nil]
      omega
    | part i k l d =>
      obtain ⟨hk, -⟩ := children_around h hsplit
      obtain ⟨path, m, r, hm, howner, hr, hle, hlt⟩ := ih k (List.mem_of_getElem? hk) hp
      refine ⟨i :: path, m,
        r.wrap (front.flatMap (Piece.fragments n)) (back.flatMap (Piece.fragments n)),
        at?_cons_eq_some.2 ⟨k, hk, hm⟩, howner, ?_, ?_, ?_⟩
      · rw [run?_cons h hsplit, hr, Option.map_some]
      · simp only [Run.wrap, List.length_append]
        omega
      · simp only [Run.wrap, List.length_append]
        omega

/-! ## Programs -/

namespace Stmt

/-- The node at the end of a path into a list of statements. -/
def listAt? (tree : List Stmt) : List Nat → Option Node
  | [] => none
  | k :: path =>
    match tree[k]? with
    | some s => (Node.stmt s).at? path
    | none => none

/-- The run of fragments that are printed for the occurrence at the end of a path. -/
def listRun? (tree : List Stmt) : List Nat → Option Run
  | [] => none
  | k :: path =>
    match tree[k]? with
    | some s =>
      ((Node.stmt s).run? false 0 path).map
        (.wrap (render (tree.take k)) (.lineBreak :: render (tree.drop (k + 1))))
    | none => none

variable {tree : List Stmt} {m : Node} {path : List Nat}

/-- A path into a program leads into one of its statements. -/
theorem listAt?_cons_eq_some {k : Nat} :
    listAt? tree (k :: path) = some m ↔
      ∃ s, tree[k]? = some s ∧ (Node.stmt s).at? path = some m := by
  rw [listAt?]
  cases tree[k]? <;> simp

/-- The nodes of a program are those at the end of a path. -/
theorem mem_listNodes_iff (h : AllChecked tree) :
    m ∈ listNodes tree ↔ ∃ path, listAt? tree path = some m := by
  rw [listNodes_eq_flatMap, List.mem_flatMap]
  constructor
  · rintro ⟨s, hs, hm⟩
    obtain ⟨k, hk⟩ := List.getElem?_of_mem hs
    obtain ⟨path, hpath⟩ := (Node.mem_nodes_iff (n := .stmt s) (allChecked_iff.1 h s hs)).1 hm
    exact ⟨k :: path, listAt?_cons_eq_some.2 ⟨s, hk, hpath⟩⟩
  · rintro ⟨path, hm⟩
    cases path with
    | nil => cases hm
    | cons k path =>
      obtain ⟨s, hk, hm⟩ := listAt?_cons_eq_some.1 hm
      have hs := List.mem_of_getElem? hk
      exact ⟨s, hs, (Node.mem_nodes_iff (n := .stmt s) (allChecked_iff.1 h s hs)).2 ⟨path, hm⟩⟩

/-- A path into a checked program leads to a checked node. -/
theorem checked_of_listAt? (h : AllChecked tree) (hm : listAt? tree path = some m) :
    m.Checked := by
  cases path with
  | nil => cases hm
  | cons k path =>
    obtain ⟨s, hk, hm⟩ := listAt?_cons_eq_some.1 hm
    have hchecked : (Node.stmt s).Checked := allChecked_iff.1 h s (List.mem_of_getElem? hk)
    exact hchecked.of_at? hm

/-- The run of a node of a program is its run in a statement between the others. -/
theorem listRun?_cons {k : Nat} {s : Stmt} (hs : tree[k]? = some s) (path : List Nat) :
    listRun? tree (k :: path) = ((Node.stmt s).run? false 0 path).map
      (.wrap (render (tree.take k)) (.lineBreak :: render (tree.drop (k + 1)))) := by
  rw [listRun?, hs]

/-- The text of a program ends with a line break. -/
theorem owner_getLast?_render (tree : List Stmt) :
    ∀ f ∈ (render tree).getLast?, f.owner = .empty := by
  intro f hf
  rcases List.eq_nil_or_concat tree with rfl | ⟨init, s, rfl⟩
  · cases hf
  · simp only [render, List.concat_eq_append, List.flatMap_append, List.flatMap_singleton,
      ← List.append_assoc, List.getLast?_concat] at hf
    cases hf
    rfl

/-- The fragments of a program come from its nodes, but for the line breaks. -/
theorem render_from {f : Fragment} (hf : f ∈ render tree) {o : Node} (ho : f.owner = .filled o) :
    o.id ∈ (listNodes tree).map Node.id := by
  obtain ⟨s, hs, hf⟩ := List.mem_flatMap.1 hf
  rcases List.mem_append.1 hf with hf | hf
  · obtain ⟨id, hid, hown⟩ := fragments_from hf
    rw [ho, Slot.map_filled, Slot.filled.injEq] at hown
    rw [hown, listNodes_eq_flatMap]
    exact List.map_subset _ (fun o ho => List.mem_flatMap.2 ⟨s, hs, ho⟩) hid
  · cases List.mem_singleton.1 hf
    cases ho

/-- In the text of a program every occurrence has its run. -/
theorem exists_listRun (h : AllChecked tree) (hm : listAt? tree path = some m) :
    ∃ r before after, listRun? tree path = some r ∧ r.text = render tree ∧
      (∃ l d, r.span = m.textAt l d) ∧ listNodes tree = before ++ (m.nodes ++ after) ∧
      r.Around before after := by
  cases path with
  | nil => cases hm
  | cons k path =>
    obtain ⟨s, hs, hm⟩ := listAt?_cons_eq_some.1 hm
    have hchecked : (Node.stmt s).Checked := allChecked_iff.1 h s (List.mem_of_getElem? hs)
    obtain ⟨r, before, after, hr, htext, hspan, hnodes, haround⟩ :=
      Node.exists_run hchecked hm false 0
    have hsplit := eq_take_cons_drop hs
    refine ⟨r.wrap (render (tree.take k)) (.lineBreak :: render (tree.drop (k + 1))),
      listNodes (tree.take k) ++ before, after ++ listNodes (tree.drop (k + 1)), ?_, ?_, hspan, ?_,
      ?_⟩
    · rw [listRun?_cons hs, hr, Option.map_some]
    · rw [Run.text_wrap, htext]
      conv_rhs => rw [hsplit]
      simp [render, Node.textAt]
    · conv_lhs => rw [hsplit]
      change s.nodes = _ at hnodes
      simp [listNodes_eq_flatMap, hnodes]
    · apply haround.wrap
      · intro f hf o ho
        rw [List.map_append, List.mem_append]
        rcases List.mem_append.1 hf with hf | hf
        · exact .inl (render_from hf ho)
        · rcases List.mem_cons.1 hf with rfl | hf
          · cases ho
          · exact .inr (render_from hf ho)
      · intro f hf o ho
        rw [owner_getLast?_render _ f hf] at ho
        cases ho
      · intro f hf o ho
        cases hf
        cases ho

/-- Every fragment of a program but the line breaks is printed for the node that it comes from. -/
theorem exists_printer (h : AllChecked tree) {a b : List Fragment} {f : Fragment} {o : Node}
    (htext : render tree = a ++ f :: b) (ho : f.owner = .filled o) :
    ∃ path r, listAt? tree path = some o ∧ listRun? tree path = some r ∧
      r.front.length ≤ a.length ∧ a.length < r.front.length + r.span.length := by
  obtain ⟨front, s, back, a', b', rfl, hs, rfl⟩ := exists_of_flatMap_eq htext
  have hget : (front ++ s :: back)[front.length]? = some s := by simp
  have hchecked : (Node.stmt s).Checked := allChecked_iff.1 h s (by simp)
  obtain ⟨b'', hs'⟩ : ∃ b'', (Node.stmt s).textAt false 0 = a' ++ f :: b'' := by
    rcases List.append_eq_append_iff.1 hs with ⟨c, -, hbreak⟩ | ⟨c, hc, hbreak⟩
    · cases c with
      | nil =>
        cases hbreak
        cases ho
      | cons g c => simp at hbreak
    · cases c with
      | nil =>
        cases hbreak
        cases ho
      | cons g c =>
        cases hbreak
        exact ⟨c, hc⟩
  obtain ⟨path, m, r, hm, howner, hr, hle, hlt⟩ := Node.exists_printer hchecked hs'
  rw [ho] at howner
  cases howner
  refine ⟨front.length :: path, r.wrap (render front) (.lineBreak :: render back),
    listAt?_cons_eq_some.2 ⟨s, hget, hm⟩, ?_, ?_, ?_⟩
  · rw [listRun?_cons hget, hr, Option.map_some]
    simp
  · simp only [Run.wrap, render, List.length_append]
    omega
  · simp only [Run.wrap, render, List.length_append]
    omega

end Stmt

end Stepwise
