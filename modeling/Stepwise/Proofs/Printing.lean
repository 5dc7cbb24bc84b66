import Stepwise.Proofs.Replacement
import Stepwise.View.Fragment

/-!
# Proofs - The text around a node

Every fragment of a printed node comes from one of its nodes.  So in a program in
which no identity occurs twice, the text of a node can be told from the text around
it.  Putting another node in the place of a node changes its own text and nothing
around it.

Main results:

- `Expr.fragments_from` and `Stmt.fragments_from`: where fragments come from.
- `Stmt.Swapped.differ`: the texts of a statement before and after a node in it is
  replaced.
- `renderSlots_filled`: the text of a program with nothing missing from it.
-/

namespace Stepwise

/-! ## Where fragments come from -/

namespace Fragment

/-- A fragment comes from a node with one of the given identities. -/
def From (ids : List Nat) (f : Fragment) : Prop :=
  ∃ k ∈ ids, f.owner.map Node.id = .filled k

variable {ids more : List Nat} {f : Fragment} {text : String}

@[simp] theorem from_ofExpr {e : Expr} : (ofExpr text e).From ids ↔ e.id ∈ ids := by
  simp [From, ofExpr, Node.id]

@[simp] theorem from_ofStmt {s : Stmt} : (ofStmt text s).From ids ↔ s.id ∈ ids := by
  simp [From, ofStmt, Node.id]

@[simp] theorem from_fragment {x : Identifier} : x.fragment.From ids ↔ x.id ∈ ids := by
  simp [From, Identifier.fragment, Identifier.node, Node.id, Expr.id]

/-- A fragment that comes from some nodes comes from more of them. -/
theorem From.mono (h : f.From ids) (hsub : ids ⊆ more) : f.From more := by
  obtain ⟨k, hk, hf⟩ := h
  exact ⟨k, hsub hk, hf⟩

/-- All fragments of a text come from nodes with the given identities. -/
def AllFrom (ids : List Nat) (frags : List Fragment) : Prop :=
  ∀ f ∈ frags, f.From ids

/-- No fragment of a text comes from a node with one of the given identities. -/
def NoneFrom (ids : List Nat) (frags : List Fragment) : Prop :=
  ∀ f ∈ frags, ¬ f.From ids

variable {frags back : List Fragment}

@[simp] theorem allFrom_nil : AllFrom ids [] := by
  simp [AllFrom]

@[simp] theorem allFrom_cons : AllFrom ids (f :: frags) ↔ f.From ids ∧ AllFrom ids frags := by
  simp [AllFrom]

@[simp] theorem allFrom_append :
    AllFrom ids (frags ++ back) ↔ AllFrom ids frags ∧ AllFrom ids back := by
  simp [AllFrom, or_imp, forall_and]

@[simp] theorem noneFrom_nil : NoneFrom ids [] := by
  simp [NoneFrom]

@[simp] theorem noneFrom_append :
    NoneFrom ids (frags ++ back) ↔ NoneFrom ids frags ∧ NoneFrom ids back := by
  simp [NoneFrom, or_imp, forall_and]

/-- A text does not come from identities other than its own. -/
theorem AllFrom.noneFrom (h : AllFrom ids frags) (hd : more.Disjoint ids) :
    NoneFrom more frags := by
  rintro f hf ⟨k, hk, hown⟩
  obtain ⟨k', hk', hown'⟩ := h f hf
  rw [hown, Slot.filled.injEq] at hown'
  exact hd hk (hown' ▸ hk')

/-- Dropping the semicolon adds no fragments. -/
theorem mem_of_mem_dropSemicolon {frags : List Fragment} (h : f ∈ dropSemicolon frags) :
    f ∈ frags := by
  unfold dropSemicolon at h
  split at h
  · split at h
    · exact List.dropLast_subset frags h
    · exact h
  · exact h

end Fragment

/-- The fragments of further arguments are separators and theirs. -/
theorem Expr.mem_moreFragments {f sep : Fragment} {es : List Expr}
    (h : f ∈ Expr.moreFragments sep es) : f = sep ∨ ∃ e ∈ es, f ∈ e.fragments := by
  induction es with
  | nil => simp [Expr.moreFragments] at h
  | cons e es ih =>
    simp only [Expr.moreFragments, List.mem_cons, List.mem_append] at h
    rcases h with rfl | h | h
    · exact .inl rfl
    · exact .inr ⟨e, by simp, h⟩
    · rcases ih h with h | ⟨e', he', h⟩
      · exact .inl h
      · exact .inr ⟨e', by simp [he'], h⟩

theorem Stmt.mem_moreFragments {f sep : Fragment} {depth : Nat} {ss : List Stmt}
    (h : f ∈ Stmt.moreFragments depth sep ss) : f = sep ∨ ∃ s ∈ ss, f ∈ s.fragments depth := by
  induction ss with
  | nil => simp [Stmt.moreFragments] at h
  | cons s ss ih =>
    simp only [Stmt.moreFragments, List.mem_cons, List.mem_append] at h
    rcases h with rfl | h | h
    · exact .inl rfl
    · exact .inr ⟨s, by simp, h⟩
    · rcases ih h with h | ⟨s', hs', h⟩
      · exact .inl h
      · exact .inr ⟨s', by simp [hs'], h⟩

/-- The fragments of an expression come from its nodes. -/
theorem Expr.fragments_from {e : Expr} {f : Fragment} (h : f ∈ e.fragments) : f.From e.ids := by
  induction e using Expr.induct with
  | identifier i => simp_all [Expr.fragments]
  | constant c =>
    simp only [Expr.fragments, Constant.fragments] at h
    split at h
    · cases h
    · simp_all [Expr.id]
  | binary id op l r ihl ihr =>
    simp only [Expr.fragments, List.mem_append, List.mem_cons] at h
    rw [Expr.ids_binary]
    rcases h with h | rfl | h
    · exact (ihl h).mono fun k hk => by simp [hk]
    · simp [Expr.id]
    · exact (ihr h).mono fun k hk => by simp [hk]
  | assign id x v ih =>
    simp only [Expr.fragments, List.mem_cons] at h
    rw [Expr.ids_assign]
    rcases h with rfl | rfl | h
    · simp
    · simp [Expr.id]
    · exact (ih h).mono fun k hk => by simp [hk]
  | addAssign id x v ih =>
    simp only [Expr.fragments, List.mem_cons] at h
    rw [Expr.ids_addAssign]
    rcases h with rfl | rfl | h
    · simp
    · simp [Expr.id]
    · exact (ih h).mono fun k hk => by simp [hk]
  | increment id x =>
    simp only [Expr.fragments, List.mem_cons, List.not_mem_nil, or_false] at h
    rcases h with rfl | rfl <;> simp [Expr.id]
  | invoke id g args ih =>
    have harg : ∀ e ∈ args, f ∈ e.fragments → f.From (Expr.invoke id g args).ids := by
      intro e he hf
      rw [Expr.ids_invoke]
      exact (ih e he hf).mono fun k hk => by
        simp only [List.mem_cons, List.mem_flatMap]
        exact .inr (.inr ⟨e, he, hk⟩)
    cases args with
    | nil =>
      simp only [Expr.fragments, List.mem_cons, List.not_mem_nil, or_false] at h
      rcases h with rfl | rfl <;> simp [Expr.id]
    | cons e es =>
      simp only [Expr.fragments, List.mem_cons, List.mem_append, List.not_mem_nil, or_false] at h
      rcases h with rfl | rfl | h | h | rfl
      · simp
      · simp [Expr.id]
      · exact harg e (by simp) h
      · rcases Expr.mem_moreFragments h with rfl | ⟨e', he', h⟩
        · simp [Expr.id]
        · exact harg e' (by simp [he']) h
      · simp [Expr.id]
  | hole v => simp [Expr.fragments] at h

/-- An initial value is printed by its own nodes. -/
theorem Expr.optionFragments_from {v : Option Expr} {f : Fragment}
    (h : f ∈ Expr.optionFragments v) : f.From (Expr.optionIds v) := by
  cases v with
  | none => cases h
  | some e => exact Expr.fragments_from h

/-- The fragments of a statement come from its nodes. -/
theorem Stmt.fragments_from {s : Stmt} {depth : Nat} {f : Fragment} (h : f ∈ s.fragments depth) :
    f.From s.ids := by
  induction s using Stmt.induct generalizing depth with
  | expression id v =>
    simp only [Stmt.fragments, List.mem_append, List.mem_singleton] at h
    rcases h with h | rfl
    · exact (Expr.optionFragments_from h).mono fun k hk => by simp [hk]
    · simp [Stmt.id]
  | declaration id t x v =>
    cases v with
    | none =>
      simp only [Stmt.fragments, List.nil_append, List.mem_cons, List.not_mem_nil, or_false] at h
      rcases h with rfl | rfl | rfl <;> simp [Stmt.id]
    | some e =>
      simp only [Stmt.fragments, List.cons_append, List.mem_cons, List.mem_append,
        List.not_mem_nil, or_false] at h
      rcases h with rfl | rfl | rfl | h | rfl
      · simp [Stmt.id]
      · simp
      · simp [Stmt.id]
      · exact (Expr.fragments_from h).mono fun k hk => by simp [hk]
      · simp [Stmt.id]
  | block id ss ih =>
    have hmem : ∀ s ∈ ss, ∀ depth, f ∈ s.fragments depth → f.From (Stmt.block id ss).ids := by
      intro s hs depth hf
      exact (ih s hs hf).mono fun k hk =>
        List.mem_cons_of_mem _ (Stmt.mem_listIds.2 ⟨s, hs, hk⟩)
    cases ss with
    | nil =>
      simp only [Stmt.fragments, List.mem_singleton] at h
      simp [h, Stmt.id]
    | cons s more =>
      simp only [Stmt.fragments, List.mem_cons, List.mem_append, List.not_mem_nil, or_false] at h
      rcases h with rfl | rfl | h | h | rfl
      · simp [Stmt.id]
      · simp [Stmt.id]
      · exact hmem s (by simp) _ h
      · rcases Stmt.mem_moreFragments h with rfl | ⟨s', hs', h⟩
        · simp [Stmt.id]
        · exact hmem s' (by simp [hs']) _ h
      · simp [Stmt.id]
  | forLoop id i c u b ihi ihc ihu ihb =>
    simp only [Stmt.fragments, Stmt.closeHeader, List.mem_cons, List.mem_append] at h
    rw [Stmt.ids_forLoop]
    rcases h with rfl | h | rfl | h | rfl | h | rfl | h
    · simp [Stmt.id]
    · exact (ihi h).mono fun k hk => by simp [hk]
    · simp [Stmt.id]
    · exact (ihc h).mono fun k hk => by simp [hk]
    · simp [Stmt.id]
    · exact (ihu (Fragment.mem_of_mem_dropSemicolon h)).mono fun k hk => by simp [hk]
    · simp [Stmt.id]
    · exact (ihb h).mono fun k hk => by simp [hk]
  | ifThen id c b ih =>
    simp only [Stmt.fragments, Stmt.closeHeader, List.mem_cons, List.mem_append] at h
    rw [Stmt.ids_ifThen]
    rcases h with rfl | h | rfl | h
    · simp [Stmt.id]
    · exact (Expr.fragments_from h).mono fun k hk => by simp [hk]
    · simp [Stmt.id]
    · exact (ih h).mono fun k hk => by simp [hk]
  | label l => simp_all [Stmt.fragments, Stmt.id]
  | jump id l => simp_all [Stmt.fragments, Stmt.id]
  | condJump id c t g o _ =>
    simp only [Stmt.fragments, List.mem_cons, List.mem_append, List.not_mem_nil, or_false] at h
    rcases h with rfl | h | rfl
    · simp [Stmt.id]
    · exact (Expr.fragments_from h).mono fun k hk => by simp [hk]
    · simp [Stmt.id]
  | undeclaration id x =>
    simp only [Stmt.fragments, List.mem_cons, List.not_mem_nil, or_false] at h
    rcases h with rfl | rfl | rfl <;> simp [Stmt.id]

/-! ## Semicolons that are left out -/

namespace Fragment

/-- A text without its closing semicolon, if it ends the update of a loop. -/
def trim (last : Bool) (frags : List Fragment) : List Fragment :=
  if last then dropSemicolon frags else frags

@[simp] theorem trim_false (frags : List Fragment) : trim false frags = frags := rfl

@[simp] theorem trim_true (frags : List Fragment) : trim true frags = dropSemicolon frags := rfl

/-- Trimming adds no fragments. -/
theorem mem_of_mem_trim {last : Bool} {f : Fragment} {frags : List Fragment}
    (h : f ∈ trim last frags) : f ∈ frags := by
  cases last with
  | false => exact h
  | true => exact mem_of_mem_dropSemicolon h

/-- Only the end of a text is trimmed. -/
theorem trim_append {back : List Fragment} (last : Bool) (front : List Fragment) (h : back ≠ []) :
    trim last (front ++ back) = front ++ trim last back := by
  cases last with
  | false => rfl
  | true =>
    rw [trim_true, trim_true, dropSemicolon, dropSemicolon, List.getLast?_append_of_ne_nil _ h]
    split
    · split
      · exact List.dropLast_append_of_ne_nil h
      · rfl
    · rfl

/-- Trimming looks at the last fragment only. -/
theorem trim_cons {back : List Fragment} (last : Bool) (f : Fragment) (h : back ≠ []) :
    trim last (f :: back) = f :: trim last back :=
  trim_append last [f] h

/-- A closing semicolon comes from its statement, if it is not left out. -/
theorem trim_semicolon_from (last : Bool) (s : Stmt) :
    AllFrom [s.id] (trim last [.ofStmt ";" s]) := by
  intro f hf
  obtain rfl := List.mem_singleton.1 (mem_of_mem_trim hf)
  simp

end Fragment

/-- Every statement is printed as something. -/
theorem Stmt.fragments_ne_nil (s : Stmt) (depth : Nat) : s.fragments depth ≠ [] := by
  cases s with
  | block id ss => cases ss <;> simp [Stmt.fragments]
  | _ => simp [Stmt.fragments]

/-! ## The text around a part of a statement -/

namespace Shell

open Fragment

/-- The level of nesting at which a part is printed. -/
def partDepth (depth : Nat) (part : Stmt) : Shell → Nat
  | ifBody _ => part.bodyDepth depth
  | member .. => depth + 1
  | forBody .. => part.bodyDepth depth
  | _ => depth

/-- The text before a part of a statement. -/
def before (depth : Nat) (part owner : Stmt) : Shell → List Fragment
  | ifBody c => .ofStmt "if (" owner :: (c.fragments ++ [part.closeHeader depth owner])
  | member pre _ =>
    .ofStmt "\x7b\n" owner :: .ofStmt (indentation (depth + 1)) owner ::
      pre.flatMap fun s =>
        s.fragments (depth + 1) ++ [.ofStmt ("\n" ++ indentation (depth + 1)) owner]
  | forInit .. => [.ofStmt "for (" owner]
  | forCond i _ _ => .ofStmt "for (" owner :: (i.fragments depth ++ [.ofStmt " " owner])
  | forUpdate i c _ =>
    .ofStmt "for (" owner ::
      (i.fragments depth ++ .ofStmt " " owner :: (c.fragments depth ++ [.ofStmt " " owner]))
  | forBody i c u =>
    .ofStmt "for (" owner ::
      (i.fragments depth ++ .ofStmt " " owner :: (c.fragments depth ++ .ofStmt " " owner ::
        (dropSemicolon (u.fragments depth) ++ [part.closeHeader depth owner])))

/-- The text after a part of a statement; `last` tells whether the statement ends
the update of a loop. -/
def after (last : Bool) (depth : Nat) (owner : Stmt) : Shell → List Fragment
  | ifBody _ => []
  | member _ post =>
    Stmt.moreFragments (depth + 1) (.ofStmt ("\n" ++ indentation (depth + 1)) owner) post ++
      [.ofStmt ("\n" ++ indentation depth ++ "\x7d") owner]
  | forInit c u b =>
    .ofStmt " " owner :: (c.fragments depth ++ .ofStmt " " owner ::
      (dropSemicolon (u.fragments depth) ++
        b.closeHeader depth owner :: trim last (b.fragments (b.bodyDepth depth))))
  | forCond _ u b =>
    .ofStmt " " owner :: (dropSemicolon (u.fragments depth) ++
      b.closeHeader depth owner :: trim last (b.fragments (b.bodyDepth depth)))
  | forUpdate _ _ b => b.closeHeader depth owner :: trim last (b.fragments (b.bodyDepth depth))
  | forBody .. => []

/-- A statement inside of a list stands between what is printed before and after it. -/
private theorem moreFragments_append (depth : Nat) (sep : Fragment) (p : Stmt) (pre : List Stmt)
    (s : Stmt) (post : List Stmt) :
    p.fragments depth ++ Stmt.moreFragments depth sep (pre ++ s :: post) =
      ((p :: pre).flatMap fun s => s.fragments depth ++ [sep]) ++
        (s.fragments depth ++ Stmt.moreFragments depth sep post) := by
  induction pre generalizing p with
  | nil => simp [Stmt.moreFragments]
  | cons q pre ih => simp [Stmt.moreFragments, ih q]

/-- Nothing is left out at the end of a block. -/
theorem trim_block (last : Bool) (depth : Nat) (id : NodeId) (ss : List Stmt) :
    trim last ((Stmt.block id ss).fragments depth) = (Stmt.block id ss).fragments depth := by
  have hne : "\n" ++ indentation depth ++ "\x7d" ≠ ";" := by
    intro h
    have := congrArg String.toList h
    simp at this
  cases ss with
  | nil => cases last <;> simp [Stmt.fragments, dropSemicolon, ofStmt]
  | cons s ss =>
    have hbrace (owner : Stmt) : trim last [.ofStmt ("\n" ++ indentation depth ++ "\x7d") owner] =
        [.ofStmt ("\n" ++ indentation depth ++ "\x7d") owner] := by
      cases last <;> simp [dropSemicolon, ofStmt, hne]
    rw [Stmt.fragments, trim_cons _ _ (by simp), trim_cons _ _ (by simp), trim_append _ _ (by simp),
      trim_append _ _ (by simp), hbrace]

/-- The end of a loop is the end of its body. -/
theorem trim_forLoop (last : Bool) (depth : Nat) (id : NodeId) (i c u b : Stmt) :
    trim last ((Stmt.forLoop id i c u b).fragments depth) =
      .ofStmt "for (" (.forLoop id i c u b) ::
        (i.fragments depth ++ .ofStmt " " (.forLoop id i c u b) ::
          (c.fragments depth ++ .ofStmt " " (.forLoop id i c u b) ::
            (dropSemicolon (u.fragments depth) ++ b.closeHeader depth (.forLoop id i c u b) ::
              trim last (b.fragments (b.bodyDepth depth))))) := by
  have hb := b.fragments_ne_nil (b.bodyDepth depth)
  rw [Stmt.fragments, trim_cons _ _ (by simp), trim_append _ _ (by simp), trim_cons _ _ (by simp),
    trim_append _ _ (by simp), trim_cons _ _ (by simp), trim_append _ _ (by simp),
    trim_cons _ _ hb]

/-- The text of a statement around the text of one of its parts. -/
theorem fragments_fill (shell : Shell) (last : Bool) (depth : Nat) (id : NodeId) (s : Stmt) :
    trim last ((shell.fill id s).fragments depth) =
      shell.before depth s (shell.fill id s) ++
        (trim (shell.closes last) (s.fragments (shell.partDepth depth s)) ++
          shell.after last depth (shell.fill id s)) := by
  cases shell with
  | ifBody c =>
    have hs := s.fragments_ne_nil (s.bodyDepth depth)
    rw [fill, Stmt.fragments, trim_cons _ _ (by simp), trim_append _ _ (by simp),
      trim_cons _ _ hs]
    simp [before, after, partDepth, closes]
  | member pre post =>
    rw [fill, trim_block]
    cases pre with
    | nil => simp [Stmt.fragments, before, after, partDepth, closes]
    | cons p pre =>
      simp only [List.cons_append, Stmt.fragments, before, after, partDepth, closes, trim_false]
      rw [← List.append_assoc, moreFragments_append]
      simp
  | forInit c u b | forCond i u b | forUpdate i c b | forBody i c u =>
    rw [fill, trim_forLoop]
    simp [before, after, partDepth, closes]

/-- The depth of a part depends on whether it is a block. -/
theorem partDepth_congr (shell : Shell) (depth : Nat) {part part' : Stmt}
    (h : part.isBlock = part'.isBlock) :
    shell.partDepth depth part = shell.partDepth depth part' := by
  cases shell <;> simp [partDepth, Stmt.bodyDepth, h]

/-- The texts around a part do not depend on identities. -/
theorem texts_before (shell : Shell) (depth : Nat) {part part' : Stmt} (owner owner' : Stmt)
    (h : part.isBlock = part'.isBlock) :
    (shell.before depth part owner).map text = (shell.before depth part' owner').map text := by
  cases shell <;> simp [before, Stmt.closeHeader, ofStmt, h, List.map_flatMap]

/-- The texts between statements do not depend on their owner. -/
private theorem texts_moreFragments (depth : Nat) (sep : String) (owner owner' : Stmt)
    (ss : List Stmt) :
    (Stmt.moreFragments depth (.ofStmt sep owner) ss).map text =
      (Stmt.moreFragments depth (.ofStmt sep owner') ss).map text := by
  induction ss with
  | nil => rfl
  | cons s ss ih =>
    simp only [Stmt.moreFragments, List.map_cons, List.map_append, ih]
    rfl

/-- The texts after a part do not depend on their owner. -/
theorem texts_after (shell : Shell) (last : Bool) (depth : Nat) (owner owner' : Stmt) :
    (shell.after last depth owner).map text = (shell.after last depth owner').map text := by
  cases shell with
  | member pre post =>
    simp only [after, List.map_append, texts_moreFragments _ _ owner owner']
    rfl
  | _ => simp [after, Stmt.closeHeader, ofStmt]

/-- The text around a part comes from the statement or from what stands around the
part. -/
theorem around_from (shell : Shell) (last : Bool) (depth : Nat) (part owner : Stmt) :
    AllFrom (owner.id :: shell.ids)
      (shell.before depth part owner ++ shell.after last depth owner) := by
  have whole : ∀ (s : Stmt) (d : Nat), s.ids ⊆ shell.ids →
      AllFrom (owner.id :: shell.ids) (s.fragments d) := fun s d hs f hf =>
    (Stmt.fragments_from hf).mono fun k hk => List.mem_cons_of_mem _ (hs hk)
  have trimmed : ∀ (s : Stmt) (last : Bool) (d : Nat), s.ids ⊆ shell.ids →
      AllFrom (owner.id :: shell.ids) (trim last (s.fragments d)) := fun s last d hs f hf =>
    whole s d hs f (mem_of_mem_trim hf)
  cases shell with
  | ifBody c =>
    have hc : AllFrom (owner.id :: c.ids) c.fragments := fun f hf =>
      (Expr.fragments_from hf).mono (List.subset_cons_self _ _)
    simpa [before, after, Stmt.closeHeader, ids] using hc
  | member pre post =>
    have hpart : ∀ s ∈ pre ++ post, ∀ f ∈ s.fragments (depth + 1),
        f.From (owner.id :: (member pre post).ids) := by
      intro s hs
      refine whole s _ fun k hk => ?_
      rw [ids, ← Stmt.listIds_append]
      exact Stmt.mem_listIds.2 ⟨s, hs, hk⟩
    intro f hf
    simp only [before, after, List.mem_append, List.mem_cons, List.mem_flatMap, List.not_mem_nil,
      or_false] at hf
    rcases hf with (rfl | rfl | ⟨s, hs, hf | rfl⟩) | hf | rfl
    · simp
    · simp
    · exact hpart s (by simp [hs]) f hf
    · simp
    · rcases Stmt.mem_moreFragments hf with rfl | ⟨s, hs, hf⟩
      · simp
      · exact hpart s (by simp [hs]) f hf
    · simp
  | forInit c u b =>
    have hc := whole c depth (by simp [ids])
    have hu := trimmed u true depth (by simp [ids])
    have hb := trimmed b last (b.bodyDepth depth) (by simp [ids])
    simpa [before, after, Stmt.closeHeader] using ⟨hc, hu, hb⟩
  | forCond i u b =>
    have hi := whole i depth (by simp [ids])
    have hu := trimmed u true depth (by simp [ids])
    have hb := trimmed b last (b.bodyDepth depth) (by simp [ids])
    simpa [before, after, Stmt.closeHeader] using ⟨hi, hu, hb⟩
  | forUpdate i c b =>
    have hi := whole i depth (by simp [ids])
    have hc := whole c depth (by simp [ids])
    have hb := trimmed b last (b.bodyDepth depth) (by simp [ids])
    simpa [before, after, Stmt.closeHeader, and_assoc] using ⟨hi, hc, hb⟩
  | forBody i c u =>
    have hi := whole i depth (by simp [ids])
    have hc := whole c depth (by simp [ids])
    have hu := trimmed u true depth (by simp [ids])
    simpa [before, after, Stmt.closeHeader] using ⟨hi, hc, hu⟩

end Shell

/-! ## Texts that differ in one span -/

/-- The text of a node, without its closing semicolon if it ends the update of a
loop. -/
def Node.span (closing : Bool) (n : Node) : List Fragment :=
  Fragment.trim closing n.fragments

/-- The text of a node comes from its nodes. -/
theorem Node.span_from (closing : Bool) (n : Node) : Fragment.AllFrom n.ids (n.span closing) := by
  intro f hf
  have hmem := Fragment.mem_of_mem_trim hf
  cases n with
  | expr e => exact Expr.fragments_from hmem
  | stmt s => exact Stmt.fragments_from hmem

/-- Two texts that agree outside one span each, of which the second one has nothing
from the given identities outside its span. -/
def Differ (ids : List Nat) (span span' whole whole' : List Fragment) : Prop :=
  ∃ before after before' after',
    whole = before ++ (span ++ after) ∧ whole' = before' ++ (span' ++ after') ∧
      before.map Fragment.text = before'.map Fragment.text ∧
      after.map Fragment.text = after'.map Fragment.text ∧
      Fragment.NoneFrom ids (before' ++ after')

/-- The same text may be put around both texts. -/
theorem Differ.wrap {ids : List Nat} {span span' whole whole' : List Fragment}
    (h : Differ ids span span' whole whole') {front front' back back' : List Fragment}
    (hfront : front.map Fragment.text = front'.map Fragment.text)
    (hback : back.map Fragment.text = back'.map Fragment.text)
    (hnone : Fragment.NoneFrom ids (front' ++ back')) :
    Differ ids span span' (front ++ (whole ++ back)) (front' ++ (whole' ++ back')) := by
  obtain ⟨b, a, b', a', rfl, rfl, hb, ha, hba⟩ := h
  refine ⟨front ++ b, a ++ back, front' ++ b', a' ++ back', by simp, by simp, ?_, ?_, ?_⟩
  · simp [hfront, hb]
  · simp [hback, ha]
  · simp only [Fragment.noneFrom_append] at hba hnone ⊢
    exact ⟨⟨hnone.1, hba.1⟩, hba.2, hnone.2⟩

/-- A text that is all of its span. -/
theorem Differ.all (ids : List Nat) (span span' : List Fragment) :
    Differ ids span span' span span' :=
  ⟨[], [], [], [], by simp, by simp, rfl, rfl, by simp⟩

/-- A simple statement is printed in one way at all levels of nesting. -/
theorem Stmt.fragments_of_isSimple {s : Stmt} (h : s.isSimple = true) (depth : Nat) :
    s.fragments depth = s.fragments 0 := by
  cases s with
  | expression id v => rfl
  | declaration id t x v => rfl
  | _ => cases h

/-- A simple statement is no block. -/
theorem Stmt.isBlock_of_isSimple {s : Stmt} (h : s.isSimple = true) : s.isBlock = false := by
  cases s <;> simp_all [Stmt.isSimple, Stmt.isBlock]

/-- A statement that is swapped for another one is a block when the other one is. -/
theorem Stmt.Swapped.isBlock_eq {n n' : Node} {last closing : Bool} {S S' : Stmt}
    (h : S.Swapped n n' last closing S') : S.isBlock = S'.isBlock := by
  cases h with
  | here _ _ hs hs' => rw [Stmt.isBlock_of_isSimple hs, Stmt.isBlock_of_isSimple hs']
  | value | ifCond => rfl
  | inside shell => cases shell <;> rfl

/-- Putting another node in the place of a node changes the text of that node and
nothing else. -/
theorem Stmt.Swapped.differ {n n' : Node} {last closing : Bool} {S S' : Stmt}
    (h : S.Swapped n n' last closing S') (depth : Nat) :
    Differ n'.ids (n.span closing) (n'.span closing)
      (Fragment.trim last (S.fragments depth)) (Fragment.trim last (S'.fragments depth)) := by
  induction h generalizing depth with
  | here hn hn' hs hs' =>
    subst hn hn'
    rw [Stmt.fragments_of_isSimple hs, Stmt.fragments_of_isSimple hs']
    exact .all ..
  | @value last id id' e e' hn hn' hd =>
    subst hn hn'
    have htexts : (Fragment.trim last [.ofStmt ";" (.expression id (some e))]).map Fragment.text =
        (Fragment.trim last [.ofStmt ";" (.expression id' (some e'))]).map Fragment.text := by
      cases last <;> rfl
    have hfrom := Fragment.trim_semicolon_from last (.expression id' (some e'))
    rw [Stmt.fragments, Stmt.fragments, Fragment.trim_append _ _ (by simp),
      Fragment.trim_append _ _ (by simp)]
    change Differ _ _ _ ([] ++ (e.fragments ++ _)) ([] ++ (e'.fragments ++ _))
    exact (Differ.all ..).wrap rfl htexts (hfrom.noneFrom hd)
  | @ifCond last id id' c c' b hn hn' hd =>
    subst hn hn'
    have hb := b.fragments_ne_nil (b.bodyDepth depth)
    have hfrom : Fragment.AllFrom (id' :: b.ids) ([.ofStmt "if (" (.ifThen id' c' b)] ++
        b.closeHeader depth (.ifThen id' c' b) ::
          Fragment.trim last (b.fragments (b.bodyDepth depth))) := by
      have hbody : Fragment.AllFrom (id' :: b.ids)
          (Fragment.trim last (b.fragments (b.bodyDepth depth))) := fun f hf =>
        (Stmt.fragments_from (Fragment.mem_of_mem_trim hf)).mono (List.subset_cons_self _ _)
      simpa [Stmt.closeHeader, Stmt.id] using hbody
    rw [Stmt.fragments, Stmt.fragments, Fragment.trim_cons _ _ (by simp),
      Fragment.trim_append _ _ (by simp), Fragment.trim_cons _ _ hb,
      Fragment.trim_cons _ _ (by simp), Fragment.trim_append _ _ (by simp),
      Fragment.trim_cons _ _ hb]
    change Differ _ _ _ ([_] ++ (c.fragments ++ _)) ([_] ++ (c'.fragments ++ _))
    exact (Differ.all ..).wrap rfl rfl (hfrom.noneFrom hd)
  | @inside last closing id id' s s' shell h hd ih =>
    rw [Shell.fragments_fill, Shell.fragments_fill, shell.partDepth_congr depth h.isBlock_eq]
    refine (ih _).wrap (shell.texts_before depth _ _ h.isBlock_eq) (shell.texts_after ..) ?_
    have hfrom := shell.around_from last depth s' (shell.fill id' s')
    rw [Shell.id_fill] at hfrom
    exact hfrom.noneFrom hd

/-! ## What can be printed -/

/-- Nothing keeps a checked expression from being printed. -/
theorem Expr.obstacle?_eq_none {e : Expr} (he : e.Checked) :
    ∀ m ∈ e.nodes, m.obstacle? = none := by
  induction e using Expr.induct with
  | identifier i => simp [Expr.nodes, Identifier.node, Node.obstacle?]
  | constant c => simp [Expr.nodes, Node.obstacle?]
  | binary id op l r ihl ihr =>
    intro m hm
    simp only [Expr.nodes, List.mem_cons, List.mem_append] at hm
    rcases hm with rfl | hm | hm
    · have hop : op.spelled = true := by
        cases op <;> simp_all [BinaryOp.known, BinaryOp.spelled]
      have hres : ∀ {e : Expr}, e.Checked → e.isReserved = false := by
        intro e he
        cases e <;> simp_all [Expr.isReserved]
      simp [Node.obstacle?, hop, hres he.2.1, hres he.2.2]
    · exact ihl he.2.1 m hm
    · exact ihr he.2.2 m hm
  | assign id x v ih | addAssign id x v ih =>
    simpa [Expr.nodes, Identifier.node, Node.obstacle?] using ih he.2
  | increment id x => simp [Expr.nodes, Identifier.node, Node.obstacle?]
  | invoke id f args ih =>
    intro m hm
    simp only [Expr.nodes, Expr.listNodes_eq_flatMap, List.mem_cons, List.mem_flatMap] at hm
    rcases hm with rfl | rfl | ⟨e, hmem, hm⟩
    · rfl
    · rfl
    · exact ih e hmem (Expr.allChecked_iff.1 he.2 e hmem) m hm
  | hole v => exact absurd he (by simp)

/-- Nothing keeps a checked statement from being printed. -/
theorem Stmt.obstacle?_eq_none {s : Stmt} (hs : s.Checked) :
    ∀ m ∈ s.nodes, m.obstacle? = none := by
  have value : ∀ {v : Option Expr}, Expr.OptionChecked v →
      ∀ m ∈ Expr.optionNodes v, m.obstacle? = none := by
    intro v hv
    cases v with
    | none => simp [Expr.optionNodes]
    | some e => exact Expr.obstacle?_eq_none hv
  induction s using Stmt.induct with
  | expression id v =>
    simpa [Stmt.nodes, Node.obstacle?] using value hs
  | declaration id t x v =>
    simpa [Stmt.nodes, Identifier.node, Node.obstacle?] using value hs.2.2
  | block id ss ih =>
    intro m hm
    simp only [Stmt.nodes, Stmt.listNodes_eq_flatMap, List.mem_cons, List.mem_flatMap] at hm
    rcases hm with rfl | ⟨s, hmem, hm⟩
    · rfl
    · exact ih s hmem (Stmt.allChecked_iff.1 hs s hmem) m hm
  | forLoop id i c u b ihi ihc ihu ihb =>
    intro m hm
    simp only [Stmt.nodes, List.mem_cons, List.mem_append] at hm
    rcases hm with rfl | hm | hm | hm | hm
    · rfl
    · exact ihi hs.1 m hm
    · exact ihc hs.2.1 m hm
    · exact ihu hs.2.2.1 m hm
    · exact ihb hs.2.2.2 m hm
  | ifThen id c b ih =>
    intro m hm
    simp only [Stmt.nodes, List.mem_cons, List.mem_append] at hm
    rcases hm with rfl | hm | hm
    · rfl
    · exact Expr.obstacle?_eq_none hs.1 m hm
    · exact ih hs.2 m hm
  | label l => simp [Stmt.nodes, Node.obstacle?]
  | jump id l => simp [Stmt.nodes, Node.obstacle?]
  | condJump id c t f o _ =>
    simpa [Stmt.nodes, Node.obstacle?] using Expr.obstacle?_eq_none hs.1
  | undeclaration id x => simp [Stmt.nodes, Identifier.node, Node.obstacle?]

/-- A checked program can be printed. -/
theorem renderSlots_filled {tree : List Stmt} (h : Stmt.AllChecked tree) :
    renderSlots (tree.map .filled) = .ok (render tree) := by
  have hprint : ∀ s ∈ tree, Operand.fragments (.filled (.stmt s)) = .ok (s.fragments 0) := by
    intro s hs
    have hnone : (Node.stmt s).nodes.findSome? Node.obstacle? = none := by
      rw [List.findSome?_eq_none_iff]
      exact Stmt.obstacle?_eq_none (Stmt.allChecked_iff.1 h s hs)
    simp [Operand.fragments, Node.printed, hnone, Node.fragments]
  have hmap : (tree.map Slot.filled).mapM (fun s => Operand.fragments (s.map .stmt)) =
      .ok (tree.map (Stmt.fragments 0)) := by
    clear h
    induction tree with
    | nil => rfl
    | cons s tree ih =>
      have hs := hprint s (by simp)
      have htree := ih fun s hs => hprint s (by simp [hs])
      simp [List.mapM_cons, hs, htree, bind, Except.bind, pure, Except.pure]
  simp [renderSlots, hmap, render, bind, Except.bind, pure, Except.pure, List.flatMap_map]

end Stepwise
