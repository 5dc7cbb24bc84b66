import Stepwise.Proofs.Ranges
import Stepwise.Proofs.Runs

/-!
# Proofs - The range of an occurrence

In a program in which no node but names occurs twice, the range that is found for a node is the run
of fragments that are printed for it, even where the statements next to it print the same names.

Main results:

- `Run.Around.fenced`: the text of an occurrence stands between texts of nodes above it.
- `findRange_run` and `findRange_name`: the range of a node, and that of a name.
- `findRange_occurrence`: both together.
-/

namespace Stepwise

/-! ## Ranges of occurrences -/

/-- What can anchor the range of a node that is no name. -/
theorem anchors_eq {n : Node} (hn : n ∈ n.nodes) (hname : n.isIdentifier = false) :
    anchors n = n.nodes.filter (!·.isIdentifier) := by
  unfold anchors
  split
  · rename_i hnil
    have hmem : n ∈ n.nodes.filter (!·.isIdentifier) := by simp [hn, hname]
    rw [hnil] at hmem
    cases hmem
  · rfl

/-- Two nodes that may occur in one program: only names share an identity. -/
def Node.Distinct (a b : Node) : Prop :=
  a.id = b.id → a.isIdentifier = true ∧ b.isIdentifier = true

instance : DecidableRel Node.Distinct := fun a b =>
  inferInstanceAs (Decidable (a.id = b.id → a.isIdentifier = true ∧ b.isIdentifier = true))

instance : Std.Symm Node.Distinct where
  symm _ _ h hid := (h hid.symm).symm

/-- No node but names occurs twice in a program. -/
def Unshared (tree : List Stmt) : Prop :=
  (Stmt.listNodes tree).Pairwise Node.Distinct

section Shared

variable {tree : List Stmt} {before inside after : List Node} {a b : Node}

/-- A node that shares the identity of a name is a name. -/
theorem Unshared.isIdentifier (h : Unshared tree) (ha : a ∈ Stmt.listNodes tree)
    (hb : b ∈ Stmt.listNodes tree) (hid : a.id = b.id) (hname : b.isIdentifier = true) :
    a.isIdentifier = true := by
  by_cases hab : a = b
  · rw [hab, hname]
  · exact (List.Pairwise.forall h ha hb hab hid).1

/-- What is outside of an occurrence shares an identity with what is inside only if both are
names. -/
theorem Unshared.outside (h : Unshared tree)
    (hnodes : Stmt.listNodes tree = before ++ (inside ++ after)) (ha : a ∈ before ++ after)
    (hb : b ∈ inside) : a.Distinct b := by
  rw [Unshared, hnodes, List.pairwise_append, List.pairwise_append] at h
  obtain ⟨-, ⟨-, -, hafter⟩, hbefore⟩ := h
  rcases List.mem_append.1 ha with ha | ha
  · exact hbefore a ha b (List.mem_append_left _ hb)
  · exact symm (hafter b hb a ha)

end Shared

/-- A fragment that some nodes own comes from one of them. -/
theorem Fragment.exists_owner {nodes : List Node} {f : Fragment} (h : f.ownedBy nodes = true) :
    ∃ o, f.owner = .filled o ∧ ∃ b ∈ nodes, o.id = b.id := by
  rw [ownedBy_iff] at h
  obtain ⟨id, hid, hown⟩ := h
  cases ho : f.owner with
  | filled o =>
    rw [ho, Slot.map_filled, Slot.filled.injEq] at hown
    subst hown
    obtain ⟨b, hb, hid⟩ := List.mem_map.1 hid
    exact ⟨o, rfl, b, hb, hid.symm⟩
  | _ =>
    rw [ho] at hown
    cases hown

/-- The text of an occurrence stands between texts of nodes above it. -/
theorem Run.Around.fenced {r : Run} {before after nodes : List Node} (h : r.Around before after)
    (hspan : ∀ f ∈ r.span, f.ownedBy nodes = true)
    (habove : ∀ o ∈ before, o.isIdentifier = false → ∀ b ∈ nodes, o.id ≠ b.id) :
    Fenced (Fragment.ownedBy nodes) r.front r.span r.back := by
  have hnot : ∀ f : Fragment, (∀ o, f.owner = .filled o → o ∈ before ∧ o.isIdentifier = false) →
      f.ownedBy nodes = false := by
    intro f hf
    rw [Bool.eq_false_iff]
    intro hown
    obtain ⟨o, ho, b, hb, hid⟩ := Fragment.exists_owner hown
    exact habove o (hf o ho).1 (hf o ho).2 b hb hid
  constructor
  · exact hspan
  · intro f hf
    exact hnot f (h.left f hf)
  · intro f hf
    exact hnot f (h.right f hf)

/-- The range of a node that is no name is the run of its occurrence. -/
theorem findRange_run {tree : List Stmt} (hchecked : Stmt.AllChecked tree)
    (hunshared : Unshared tree) {path : List Nat} {n : Node}
    (hn : Stmt.listAt? tree path = some n) (hname : n.isIdentifier = false)
    (hprinted : ∃ f ∈ render tree, f.ownedBy (n.nodes.filter (!·.isIdentifier)) = true) :
    ∃ r, Stmt.listRun? tree path = some r ∧ r.text = render tree ∧
      (∃ last depth, r.span = n.textAt last depth) ∧
      findRange (render tree) (.filled n) = some (.ofSpan r.front r.span) := by
  have hself := (Stmt.checked_of_listAt? hchecked hn).mem_nodes_self
  obtain ⟨r, before, after, hr, htext, ⟨l, d, hspan⟩, hnodes, haround⟩ :=
    Stmt.exists_listRun hchecked hn
  rw [← anchors_eq hself hname] at hprinted
  have hout : ∀ f ∈ r.front ++ r.back, f.ownedBy (anchors n) = false := by
    intro f hf
    rw [Bool.eq_false_iff]
    intro hown
    obtain ⟨o, ho, b, hb, hid⟩ := Fragment.exists_owner hown
    rw [anchors_eq hself hname, List.mem_filter, Bool.not_eq_true'] at hb
    obtain ⟨a, ha, haid⟩ := List.mem_map.1 (haround.outside f hf o ho)
    have hboth := hunshared.outside hnodes ha hb.1 (haid.trans hid)
    rw [hb.2] at hboth
    cases hboth.2
  refine ⟨r, hr, htext, ⟨l, d, hspan⟩, ?_⟩
  rw [← htext, Run.text]
  apply findRange_fenced
  · apply haround.fenced
    · intro f hf
      rw [hspan] at hf
      exact Fragment.ownedBy_iff.2 (n.textAt_from l d f hf)
    · intro o ho honame b hb hid
      have hboth := hunshared.outside hnodes (List.mem_append_left _ ho) hb hid
      rw [honame] at hboth
      cases hboth.1
  · intro f hf
    exact hout f (List.mem_append_left _ hf)
  · obtain ⟨f, hf, hown⟩ := hprinted
    rw [← htext, Run.text, List.mem_append, List.mem_append] at hf
    rcases hf with hf | hf | hf
    · rw [hout f (List.mem_append_left _ hf)] at hown
      cases hown
    · exact ⟨f, hf, hown⟩
    · rw [hout f (List.mem_append_right _ hf)] at hown
      cases hown

/-- A node that is a name is the node of that name. -/
theorem Node.eq_node_of_isIdentifier {n : Node} (h : n.isIdentifier = true) :
    ∃ x : Identifier, n = x.node := by
  cases n with
  | expr e =>
    cases e with
    | identifier x => exact ⟨x, rfl⟩
    | _ => cases h
  | stmt s => cases h

/-- The range of a name is the run of its first occurrence that is printed. -/
theorem findRange_name {tree : List Stmt} (hchecked : Stmt.AllChecked tree)
    (hunshared : Unshared tree) {x : Identifier} (hx : x.node ∈ Stmt.listNodes tree) :
    ∃ first y r, Stmt.listAt? tree first = some (Identifier.node y) ∧ y.id = x.id ∧
      Stmt.listRun? tree first = some r ∧ r.text = render tree ∧ r.span = [y.fragment] ∧
      (∀ f ∈ r.front, f.ownedBy [x.node] = false) ∧
      findRange (render tree) (.filled x.node) = some (.ofSpan r.front r.span) := by
  obtain ⟨f, hf⟩ : ∃ f, (render tree).find? (Fragment.ownedBy [x.node]) = some f := by
    obtain ⟨path, hpath⟩ := (Stmt.mem_listNodes_iff hchecked).1 hx
    obtain ⟨r, -, -, -, htext, ⟨l, d, hspan⟩, -, -⟩ := Stmt.exists_listRun hchecked hpath
    have hin : x.fragment ∈ render tree := by
      rw [← htext, Run.text, hspan]
      simp [Node.textAt, Identifier.node, Expr.fragments]
    rw [← Option.isSome_iff_exists, List.find?_isSome]
    exact ⟨x.fragment, hin, by simp [Fragment.ownedBy, Identifier.fragment, Node.same]⟩
  obtain ⟨hown, front, back, hsplit, hfront⟩ := List.find?_eq_some_iff_append.1 hf
  obtain ⟨o, ho, b, hb, hid⟩ := Fragment.exists_owner hown
  cases List.mem_singleton.1 hb
  obtain ⟨first, r, hat, hr, hle, hlt⟩ := Stmt.exists_printer hchecked hsplit ho
  have homem := (Stmt.mem_listNodes_iff hchecked).2 ⟨first, hat⟩
  obtain ⟨y, rfl⟩ := Node.eq_node_of_isIdentifier (hunshared.isIdentifier homem hx hid rfl)
  obtain ⟨r', before, after, hr', htext, ⟨l, d, hspan⟩, hnodes, haround⟩ :=
    Stmt.exists_listRun hchecked hat
  rw [hr] at hr'
  cases hr'
  change r.span = [y.fragment] at hspan
  have hfronts : r.front = front := by
    rw [hspan, List.length_singleton] at hlt
    rw [← htext, Run.text] at hsplit
    exact (List.append_inj hsplit (by omega)).1
  have hbefore : ∀ g ∈ r.front, g.ownedBy [x.node] = false := by
    intro g hg
    rw [hfronts] at hg
    simpa using hfront g hg
  have hyown : y.fragment.ownedBy [x.node] = true := by
    rw [Fragment.ownedBy_iff, Fragment.from_fragment]
    exact List.mem_singleton.2 hid
  refine ⟨first, y, r, hat, hid, hr, htext, hspan, hbefore, ?_⟩
  rw [← htext, Run.text]
  apply findRange_fenced
  · apply haround.fenced
    · intro g hg
      rw [hspan] at hg
      cases List.mem_singleton.1 hg
      exact hyown
    · intro a ha haname c hc haid
      cases List.mem_singleton.1 hc
      have hamem : a ∈ Stmt.listNodes tree := by
        rw [hnodes]
        exact List.mem_append_left _ ha
      rw [hunshared.isIdentifier hamem hx haid rfl] at haname
      cases haname
  · exact hbefore
  · exact ⟨y.fragment, by simp [hspan], hyown⟩

/-- Where no node but names occurs twice, the range of a node that is no name is the run of
fragments printed for its occurrence, if it can be anchored at all, and that of a name is the
single fragment of its first occurrence that is printed. -/
theorem findRange_occurrence {tree : List Stmt} (hchecked : Stmt.AllChecked tree)
    (hunshared : Unshared tree) :
    (∀ n ∈ Stmt.listNodes tree, n.isIdentifier = false →
      (∃ f ∈ render tree, f.ownedBy (n.nodes.filter (!·.isIdentifier)) = true) →
      (∃ path, Stmt.listAt? tree path = some n) ∧
      ∀ path, Stmt.listAt? tree path = some n →
        ∃ r, Stmt.listRun? tree path = some r ∧ r.text = render tree ∧
          (∃ last depth, r.span = n.textAt last depth) ∧
          findRange (render tree) (.filled n) = some (.ofSpan r.front r.span)) ∧
    ∀ x : Identifier, x.node ∈ Stmt.listNodes tree →
      ∃ first y r, Stmt.listAt? tree first = some (Identifier.node y) ∧ y.id = x.id ∧
        Stmt.listRun? tree first = some r ∧ r.text = render tree ∧ r.span = [y.fragment] ∧
        (∀ f ∈ r.front, f.ownedBy [x.node] = false) ∧
        findRange (render tree) (.filled x.node) = some ⟨r.front.length, r.front.length⟩ := by
  constructor
  · intro n hn hname hprinted
    refine ⟨(Stmt.mem_listNodes_iff hchecked).1 hn, ?_⟩
    intro path hpath
    exact findRange_run hchecked hunshared hpath hname hprinted
  · intro x hx
    obtain ⟨first, y, r, hat, hid, hr, htext, hspan, hfront, hfound⟩ :=
      findRange_name hchecked hunshared hx
    refine ⟨first, y, r, hat, hid, hr, htext, hspan, hfront, ?_⟩
    rw [hfound, hspan]
    simp [Range.ofSpan]

/-- The statement `x++;`. -/
def sharedUpdate : Stmt := .expression 6 (some (.increment 7 ⟨2, "x"⟩))

/-- The program `x; for (x; x; x++) x;`, in which all names are one node. -/
def sharedNames : List Stmt :=
  let name (id : NodeId) : Stmt := .expression id (some (.identifier ⟨2, "x"⟩))
  [name 1, .forLoop 3 (name 4) (name 5) sharedUpdate (name 8)]

/-- The update is printed without its semicolon, as fragments 10 and 11, next to texts of the same
name; the name itself is found where it is printed first. -/
theorem findRange_occurrence_sharedNames :
    Stmt.AllChecked sharedNames ∧ Unshared sharedNames ∧
    findRange (render sharedNames) (.filled (.stmt sharedUpdate)) = some ⟨10, 11⟩ ∧
    findRange (render sharedNames) (.filled (Identifier.node ⟨2, "x"⟩)) = some ⟨0, 0⟩ := by
  have hchecked : Stmt.AllChecked sharedNames := by
    simp [sharedNames, sharedUpdate, Identifier.Checked]
  have hunshared : Unshared sharedNames := by
    unfold Unshared
    decide
  obtain ⟨hnodes, hnames⟩ := findRange_occurrence hchecked hunshared
  refine ⟨hchecked, hunshared, ?_, ?_⟩
  · have hmem : Node.stmt sharedUpdate ∈ Stmt.listNodes sharedNames :=
      (Stmt.mem_listNodes_iff hchecked).2 ⟨[1, 2], rfl⟩
    have hprinted : ∃ f ∈ render sharedNames,
        f.ownedBy ((Node.stmt sharedUpdate).nodes.filter (!·.isIdentifier)) = true := by
      rw [← List.any_eq_true]
      decide
    have hlengths : (Stmt.listRun? sharedNames [1, 2]).map
        (fun r => (r.front.length, r.span.length)) = some (10, 2) := by decide
    obtain ⟨r, hr, -, -, hfound⟩ := (hnodes _ hmem rfl hprinted).2 [1, 2] rfl
    rw [hr, Option.map_some, Option.some.injEq, Prod.mk.injEq] at hlengths
    rw [hfound, Range.ofSpan, hlengths.1, hlengths.2]
    rfl
  · have hmem : Identifier.node ⟨2, "x"⟩ ∈ Stmt.listNodes sharedNames :=
      (Stmt.mem_listNodes_iff hchecked).2 ⟨[0, 0], rfl⟩
    obtain ⟨first, y, r, -, -, -, htext, -, hfront, hfound⟩ := hnames _ hmem
    cases hr : r.front with
    | nil =>
      rw [hfound, hr]
      rfl
    | cons f front =>
      rw [Run.text, hr] at htext
      have hf : f = Identifier.fragment ⟨2, "x"⟩ := (List.cons.inj htext).1
      have hnot := hfront f (by simp [hr])
      rw [hf] at hnot
      cases hnot

end Stepwise
