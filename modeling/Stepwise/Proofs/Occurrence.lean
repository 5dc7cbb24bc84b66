import Stepwise.Proofs.Identity
import Mathlib.Data.List.Perm.Subperm

/-!
# Proofs - Where lowered statements stand in the source

A statement of lowered code that does some work stands for a node of the program
it was lowered from: a simple statement for itself, and a conditional jump for the
condition it tests.  Jumps and undeclarations stand for nothing in the program.
This module says where such a node stands in the program, and whether its text
ends the header of a loop, where the closing semicolon is left out.

Main results:

- `Phrase.LowersTo.sourceIds`: what lowered code has from the program.
- `Phrase.LowersTo.holds`: what lowered code stands for occurs in the program.
- `Stmt.Holds.subperm`: the nodes of an occurrence are nodes of the program.
-/

namespace Stepwise

/-! ## Occurrences -/

/-- Whether a statement holds no other statement and may stand in a program. -/
def Stmt.isSimple : Stmt → Bool
  | .expression .. => true
  | .declaration .. => true
  | _ => false

/-- The node of the program that a flat statement stands for. -/
def Stmt.counterpart? : Stmt → Option Node
  | .condJump _ c _ _ _ => some (.expr c)
  | st => if st.isSimple then some (.stmt st) else none

/-- A simple statement stands for itself, a conditional jump for its condition. -/
theorem Stmt.counterpart?_eq_some {st : Stmt} {n : Node} (h : st.counterpart? = some n) :
    (st.isSimple = true ∧ n = .stmt st) ∨
      ∃ id c t f o, st = .condJump id c t f o ∧ n = .expr c := by
  unfold Stmt.counterpart? at h
  split at h
  · cases h
    exact .inr ⟨_, _, _, _, _, rfl, rfl⟩
  · split at h
    · cases h
      exact .inl ⟨‹_›, rfl⟩
    · cases h

/-- What stands around a statement that is part of another one. -/
inductive Shell where
  | ifBody (c : Expr)
  | member (pre post : List Stmt)
  | forInit (c u b : Stmt)
  | forCond (i u b : Stmt)
  | forUpdate (i c b : Stmt)
  | forBody (i c u : Stmt)

namespace Shell

/-- The statement with a part put into its shell. -/
def fill (shell : Shell) (id : NodeId) (s : Stmt) : Stmt :=
  match shell with
  | ifBody c => .ifThen id c s
  | member pre post => .block id (pre ++ s :: post)
  | forInit c u b => .forLoop id s c u b
  | forCond i u b => .forLoop id i s u b
  | forUpdate i c b => .forLoop id i c s b
  | forBody i c u => .forLoop id i c u s

@[simp] theorem id_fill (shell : Shell) (id : NodeId) (s : Stmt) : (shell.fill id s).id = id := by
  cases shell <;> rfl

/-- Whether the text of the part ends the update of a loop, given whether that of
the whole statement does. -/
def closes (last : Bool) : Shell → Bool
  | ifBody _ => last
  | member .. => false
  | forInit .. => false
  | forCond .. => false
  | forUpdate .. => true
  | forBody .. => last

/-- The identities of what stands around the part. -/
def ids : Shell → List Nat
  | ifBody c => c.ids
  | member pre post => Stmt.listIds pre ++ Stmt.listIds post
  | forInit c u b => c.ids ++ (u.ids ++ b.ids)
  | forCond i u b => i.ids ++ (u.ids ++ b.ids)
  | forUpdate i c b => i.ids ++ (c.ids ++ b.ids)
  | forBody i c u => i.ids ++ (c.ids ++ u.ids)

/-- The identities of a statement are those of a part and of what stands around
it. -/
theorem ids_fill (shell : Shell) (id : NodeId) (s : Stmt) :
    (shell.fill id s).ids.Perm (s.ids ++ id :: shell.ids) := by
  rw [List.perm_iff_count]
  intro k
  cases shell <;> simp [fill, ids, Stmt.listIds_append, List.count_cons] <;> omega

end Shell

/-- A node that is evaluated stands in a statement.  The first mark tells whether
the text of the statement ends the update of a loop, the second one whether that of
the node does. -/
inductive Stmt.Holds (n : Node) : Bool → Stmt → Bool → Prop
  | here {last : Bool} {s : Stmt} : n = .stmt s → s.isSimple = true → Holds n last s last
  | value {last : Bool} {e : Expr} (id : NodeId) : n = .expr e →
      Holds n last (.expression id (some e)) false
  | ifCond {last : Bool} {c : Expr} (id : NodeId) (b : Stmt) : n = .expr c →
      Holds n last (.ifThen id c b) false
  | inside {last closing : Bool} {s : Stmt} (shell : Shell) (id : NodeId) :
      Holds n (shell.closes last) s closing → Holds n last (shell.fill id s) closing

/-- The identities of an occurrence are among those of the statement. -/
theorem Stmt.Holds.subperm {n : Node} {last closing : Bool} {s : Stmt}
    (h : s.Holds n last closing) : n.ids.Subperm s.ids := by
  induction h with
  | here hn => simp [hn, List.Subperm.refl]
  | value id hn => simpa [hn] using (List.sublist_cons_self id _).subperm
  | ifCond id b hn => simpa [hn] using ((List.sublist_append_left _ b.ids).cons id).subperm
  | inside shell id _ ih =>
    exact (ih.trans (List.sublist_append_left _ _).subperm).trans (shell.ids_fill id _).symm.subperm

/-- The text of an expression does not end with the semicolon of a statement. -/
theorem Stmt.Holds.closing_eq_false {n : Node} {e : Expr} {last closing : Bool} {s : Stmt}
    (h : s.Holds n last closing) (hn : n = .expr e) : closing = false := by
  induction h with
  | here hs =>
    rw [hn] at hs
    cases hs
  | value | ifCond => rfl
  | inside shell id _ ih => exact ih

/-- No identity occurs twice in an occurrence, if none does in the statement. -/
theorem Stmt.Holds.nodup {n : Node} {last closing : Bool} {s : Stmt}
    (h : s.Holds n last closing) (hs : s.ids.Nodup) : n.ids.Nodup := by
  obtain ⟨ids, hperm, hsub⟩ := h.subperm
  exact hperm.nodup_iff.1 (hs.sublist hsub)

/-! ## Lowered code -/

/-- A node that is evaluated stands in a phrase. -/
def Phrase.Holds (n : Node) : Phrase → Prop
  | .one s => ∀ last, ∃ closing, s.Holds n last closing
  | .all ss => ∃ s ∈ ss, ∀ last, ∃ closing, s.Holds n last closing
  | .loop c u b => ∀ last, ∃ closing,
      c.Holds n false closing ∨ u.Holds n true closing ∨ b.Holds n last closing

/-- The condition that a statement is the origin of a jump for. -/
def Stmt.condition? : Stmt → Option Expr
  | .ifThen _ c _ => some c
  | .expression _ v => v
  | _ => none

/-- A statement as lowering leaves it: no statement holds another one, and a
conditional jump tests the condition of its origin. -/
def Stmt.Flat : Stmt → Prop
  | .block .. => False
  | .forLoop .. => False
  | .ifThen .. => False
  | .condJump _ c _ _ o => o.condition? = some c
  | _ => True

/-- Undeclarations are flat and stand for nothing. -/
theorem Drops.flat {names : List Identifier} {drops : List Stmt} {st : Stmt}
    (h : Drops names drops) (hst : st ∈ drops) : st.Flat ∧ st.counterpart? = none := by
  induction h with
  | nil => cases hst
  | cons id h ih =>
    rcases List.mem_cons.1 hst with rfl | hst
    · exact ⟨trivial, rfl⟩
    · exact ih hst

/-- Undeclarations undeclare the names they are made for. -/
theorem Drops.exists_name {names : List Identifier} {drops : List Stmt} {st : Stmt}
    (h : Drops names drops) (hst : st ∈ drops) : ∃ id, ∃ x ∈ names, st = .undeclaration id x := by
  induction h with
  | nil => cases hst
  | @cons x names drops id h ih =>
    rcases List.mem_cons.1 hst with rfl | hst
    · exact ⟨id, x, List.mem_cons_self .., rfl⟩
    · obtain ⟨id', y, hy, rfl⟩ := ih hst
      exact ⟨id', y, List.mem_cons_of_mem _ hy, rfl⟩

/-- The identities that a flat statement has from the program: all of them if it is a
statement of the program, and all but its own one if lowering adds it. -/
def Stmt.sourceIds (st : Stmt) : List Nat :=
  if st.isSource then st.ids else st.ids.tail

namespace Phrase

variable {p : Phrase} {code : List Stmt} {st : Stmt} {n : Node}

/-- Lowered code is flat. -/
theorem LowersTo.flat (h : p.LowersTo code) : ∀ st ∈ code, st.Flat := by
  induction h with
  | nil => simp
  | cons _ _ ih ih' =>
    intro st hst
    exact (List.mem_append.1 hst).elim (ih st) (ih' st)
  | expression | declaration => simp [Stmt.Flat]
  | block id _ hd ih =>
    intro st hst
    exact (List.mem_append.1 hst).elim (ih st) fun hst => (hd.flat hst).1
  | ifThen id k leave skip c t f e _ ih =>
    intro st hst
    simp only [List.mem_cons, List.mem_append, List.not_mem_nil, or_false] at hst
    rcases hst with rfl | rfl | hst | rfl | rfl | rfl | rfl
    · rfl
    · trivial
    · exact ih st hst
    all_goals trivial
  | forLoop id _ _ hd ih ih' =>
    intro st hst
    simp only [List.mem_append] at hst
    rcases hst with hst | hst | hst
    · exact ih st hst
    · exact ih' st hst
    · exact (hd.flat hst).1
  | loop back start inner exit ht _ _ ihb ihu =>
    intro st hst
    simp only [List.mem_cons, List.mem_append, List.not_mem_nil, or_false] at hst
    rcases hst with rfl | rfl | rfl | hst | hst | rfl | rfl
    · trivial
    · cases ht <;> simp [Stmt.Flat, Stmt.condition?]
    · trivial
    · exact ihb st hst
    · exact ihu st hst
    all_goals trivial

/-- What stands for nothing in lowered code is a jump or an undeclaration. -/
theorem LowersTo.aside (h : p.LowersTo code) (hst : st ∈ code) (hlabel : st.isLabel = false)
    (hn : st.counterpart? = none) :
    (∃ id l, st = .jump id l) ∨ ∃ id x, st = .undeclaration id x := by
  have hflat := h.flat st hst
  cases st with
  | jump id l => exact .inl ⟨id, l, rfl⟩
  | undeclaration id x => exact .inr ⟨id, x, rfl⟩
  | label l => cases hlabel
  | expression | declaration | condJump => cases hn
  | block | forLoop | ifThen => exact absurd hflat (by simp [Stmt.Flat])

/-- The identities of a phrase, in pre-order. -/
def ids : Phrase → List Nat
  | .one s => s.ids
  | .all ss => Stmt.listIds ss
  | .loop c u b => c.ids ++ (u.ids ++ b.ids)

/-- The names that a phrase declares are among its nodes. -/
theorem id_mem_ids_of_declared {x : Identifier} (h : x ∈ p.declared) : x.id ∈ p.ids := by
  have one : ∀ {s : Stmt}, s.declared? = some x → x.id ∈ s.ids := by
    intro s hs
    cases s <;> cases hs
    simp
  cases p with
  | one s => exact one (Option.mem_toList.1 h)
  | all ss =>
    obtain ⟨s, hs, hx⟩ := List.mem_filterMap.1 h
    exact Stmt.mem_listIds.2 ⟨s, hs, one hx⟩
  | loop => cases h

/-- What a statement of lowered code has from the program has identities of what was
lowered. -/
theorem LowersTo.sourceIds (h : p.LowersTo code) (hst : st ∈ code) : st.sourceIds ⊆ p.ids := by
  have dropped : ∀ {q : Phrase} {drops : List Stmt}, Drops q.declared drops → st ∈ drops →
      st.sourceIds ⊆ q.ids := by
    intro q drops hd hst
    obtain ⟨id, x, hx, rfl⟩ := hd.exists_name hst
    exact List.cons_subset.2 ⟨id_mem_ids_of_declared hx, List.nil_subset _⟩
  induction h with
  | nil => cases hst
  | cons _ _ ih ih' =>
    simp only [Phrase.ids, Stmt.listIds_cons]
    rcases List.mem_append.1 hst with hst | hst
    · exact List.subset_append_of_subset_left _ (ih hst)
    · exact List.subset_append_of_subset_right _ (ih' hst)
  | expression | declaration =>
    obtain rfl := List.mem_singleton.1 hst
    exact List.Subset.refl _
  | block id _ hd ih =>
    simp only [Phrase.ids, Stmt.ids_block]
    rcases List.mem_append.1 hst with hst | hst
    · exact List.subset_cons_of_subset id (ih hst)
    · exact List.subset_cons_of_subset id (dropped hd hst)
  | ifThen id k leave skip c t f e _ ih =>
    simp only [Phrase.ids, Stmt.ids_ifThen]
    simp only [List.mem_cons, List.mem_append, List.not_mem_nil, or_false] at hst
    rcases hst with rfl | rfl | hst | rfl | rfl | rfl | rfl
    · exact List.subset_cons_of_subset id (List.subset_append_left c.ids _)
    · exact List.nil_subset _
    · exact List.subset_cons_of_subset id (List.subset_append_of_subset_right _ (ih hst))
    all_goals exact List.nil_subset _
  | forLoop id _ _ hd ih ih' =>
    simp only [Phrase.ids, Stmt.ids_forLoop]
    simp only [List.mem_append] at hst
    rcases hst with hst | hst | hst
    · exact List.subset_cons_of_subset id (List.subset_append_of_subset_left _ (ih hst))
    · exact List.subset_cons_of_subset id (List.subset_append_of_subset_right _ (ih' hst))
    · exact List.subset_cons_of_subset id (List.subset_append_of_subset_left _ (dropped hd hst))
  | loop back start inner exit ht _ _ ihb ihu =>
    simp only [Phrase.ids]
    simp only [List.mem_cons, List.mem_append, List.not_mem_nil, or_false] at hst
    rcases hst with rfl | rfl | rfl | hst | hst | rfl | rfl
    · exact List.nil_subset _
    · cases ht with
      | absent id k => exact List.nil_subset _
      | present id k e =>
        exact List.subset_append_of_subset_left _ (List.subset_cons_self _ e.ids)
    · exact List.nil_subset _
    · exact List.subset_append_of_subset_right _
        (List.subset_append_of_subset_right _ (ihb hst))
    · exact List.subset_append_of_subset_right _ (List.subset_append_of_subset_left _ (ihu hst))
    all_goals exact List.nil_subset _

/-- The identities of a statement of lowered code are those of what was lowered, but for
its own one if lowering adds it. -/
theorem LowersTo.ids (h : p.LowersTo code) (hst : st ∈ code) {k : Nat} (hk : k ∈ st.ids) :
    k ∈ p.ids ∨ st.isSource = false ∧ k = st.id := by
  have hsub := h.sourceIds hst
  cases hsource : st.isSource with
  | true =>
    rw [Stmt.sourceIds, hsource] at hsub
    exact .inl (hsub hk)
  | false =>
    rw [Stmt.sourceIds, hsource] at hsub
    obtain ⟨rest, hids⟩ := List.head?_eq_some_iff.1 st.head?_ids
    rw [hids] at hsub hk
    rcases List.mem_cons.1 hk with rfl | hk
    · exact .inr ⟨rfl, rfl⟩
    · exact .inl (hsub hk)

/-- What a statement of lowered code stands for occurs in what was lowered. -/
theorem LowersTo.holds (h : p.LowersTo code) (hst : st ∈ code) (hn : st.counterpart? = some n) :
    p.Holds n := by
  induction h with
  | nil => cases hst
  | @cons s ss code more _ _ ih ih' =>
    rcases List.mem_append.1 hst with hst | hst
    · exact ⟨s, by simp, ih hst⟩
    · obtain ⟨s', hs', hholds⟩ := ih' hst
      exact ⟨s', by simp [hs'], hholds⟩
  | expression id v | declaration id t x v =>
    obtain rfl := List.mem_singleton.1 hst
    cases hn
    exact fun last => ⟨last, .here rfl rfl⟩
  | @block ss body drops id _ hd ih =>
    rcases List.mem_append.1 hst with hst | hst
    · obtain ⟨s, hs, hholds⟩ := ih hst
      obtain ⟨pre, post, rfl⟩ := List.append_of_mem hs
      obtain ⟨closing, hholds⟩ := hholds false
      exact fun last => ⟨closing, .inside (.member pre post) id hholds⟩
    · simp [(hd.flat hst).2] at hn
  | @ifThen b body id k leave skip c t f e _ ih =>
    simp only [List.mem_cons, List.mem_append, List.not_mem_nil, or_false] at hst
    rcases hst with rfl | rfl | hst | rfl | rfl | rfl | rfl
    · cases hn
      exact fun last => ⟨false, .ifCond id b rfl⟩
    · cases hn
    · intro last
      obtain ⟨closing, hholds⟩ := ih hst last
      exact ⟨closing, .inside (.ifBody c) id hholds⟩
    all_goals cases hn
  | @forLoop i c u b init again drops id _ _ hd ih ih' =>
    simp only [List.mem_append] at hst
    intro last
    rcases hst with hst | hst | hst
    · obtain ⟨closing, hholds⟩ := ih hst false
      exact ⟨closing, .inside (.forInit c u b) id hholds⟩
    · obtain ⟨closing, hholds⟩ := ih' hst last
      rcases hholds with hholds | hholds | hholds
      · exact ⟨closing, .inside (.forCond i u b) id hholds⟩
      · exact ⟨closing, .inside (.forUpdate i c b) id hholds⟩
      · exact ⟨closing, .inside (.forBody i c u) id hholds⟩
    · simp [(hd.flat hst).2] at hn
  | @loop c u b test body update back start inner exit ht _ _ ihb ihu =>
    simp only [List.mem_cons, List.mem_append, List.not_mem_nil, or_false] at hst
    intro last
    rcases hst with rfl | rfl | rfl | hst | hst | rfl | rfl
    · cases hn
    · cases ht with
      | absent id k => cases hn
      | present id k e =>
        cases hn
        exact ⟨false, .inl (.value id rfl)⟩
    · cases hn
    · obtain ⟨closing, hholds⟩ := ihb hst last
      exact ⟨closing, .inr (.inr hholds)⟩
    · obtain ⟨closing, hholds⟩ := ihu hst true
      exact ⟨closing, .inr (.inl hholds)⟩
    all_goals cases hn

end Phrase

end Stepwise
