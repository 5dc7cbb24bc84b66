import Stepwise.Proofs.Printing
import Stepwise.View.Range

/-!
# Proofs - Ranges of a text

The range of a node is found from one anchoring fragment and grows over all
fragments that come from the node.  Where the text of the node is one span, and
nothing around it comes from the node, the range is that span, in fragments as well
as in tokens.  Splitting a text into tokens keeps what it spells.

Main results:

- `Token.join_tagTokens`: tokens spell the text they were split from.
- `findRangeWithin_fenced`: the range of a node grows as far as its neighbours.
- `findRangeWithin_located`: the range of a node is its span.
- `tokenRange_ofSpan`: the tokens of a span.
-/

namespace Stepwise

/-! ## Spans of a list -/

/-- The range of the positions of a list that stands after another one. -/
def Range.ofSpan {α : Type} (front span : List α) : Range :=
  ⟨front.length, front.length + span.length - 1⟩

namespace Range

variable {α : Type} (front span back : List α)

@[simp] theorem start_ofSpan : (ofSpan front span).start = front.length := rfl

@[simp] theorem stop_ofSpan : (ofSpan front span).stop = front.length + span.length - 1 := rfl

/-- The items at the positions of a span are the span. -/
theorem slice_ofSpan : (ofSpan front span).slice (front ++ (span ++ back)) = span := by
  have hsize : (ofSpan front span).size.toNat = span.length := by
    simp only [size, start_ofSpan, stop_ofSpan]
    omega
  rw [slice, hsize, start_ofSpan, Int.toNat_natCast, List.drop_left, List.take_left]

/-- The range of a span lies within the list. -/
theorem clip_ofSpan :
    (ofSpan front span).clip (front ++ (span ++ back)).length = ofSpan front span := by
  simp only [clip, ofSpan, List.length_append, mk.injEq]
  omega

end Range

/-! ## The text of tokens -/

/-- The text of fragments in turn is their texts in turn. -/
theorem Fragment.join_append (frags more : List Fragment) :
    Fragment.join (frags ++ more) = Fragment.join frags ++ Fragment.join more := by
  simp [Fragment.join]

theorem Token.join_append (tokens more : List Token) :
    Token.join (tokens ++ more) = Token.join tokens ++ Token.join more := by
  simp [Token.join]

namespace Token

/-- The runs of a text spell the text. -/
theorem flatMap_runs (cs : List Char) : (runs cs).flatMap Prod.snd = cs := by
  induction cs with
  | nil => rfl
  | cons c cs ih =>
    rw [runs]
    split
    · rename_i h
      rw [h] at ih
      simp_all
    · rename_i brackets run rest h
      rw [h] at ih
      split
      · simpa using ih
      · simpa using ih

/-- The tokens of white space spell it. -/
theorem join_tagTrivia (cs : List Char) : Token.join (tagTrivia cs) = String.ofList cs := by
  have hall : ∀ rs : List (Bool × List Char),
      Token.join (rs.map fun r =>
        ⟨String.ofList r.2, if r.1 then .bracket else .whitespace⟩) =
        String.ofList (rs.flatMap Prod.snd) := by
    intro rs
    induction rs with
    | nil => rfl
    | cons r rs ih =>
      rw [List.map_cons, ← List.singleton_append, join_append, ih]
      simp [Token.join]
  exact (hall _).trans (congrArg String.ofList (flatMap_runs cs))

theorem join_singleton (token : Token) : Token.join [token] = token.text := by
  simp [Token.join]

/-- The tokens of a constant spell it. -/
theorem join_ofConstant (core : List Char) (v : Value) :
    Token.join (ofConstant core v) = String.ofList core := by
  unfold ofConstant
  split
  · exact join_singleton _
  · exact join_singleton _
  · split
    · rename_i digits
      rw [← List.singleton_append, join_append, join_singleton, join_singleton]
      exact String.ofList_append.symm
    · exact join_singleton _

/-- The tokens of the middle of a fragment spell it, whatever node it comes from. -/
theorem join_tagCore (core : List Char) (owner : Operand) :
    Token.join (tagCore core owner) = String.ofList core := by
  unfold tagCore
  split
  · exact join_singleton _
  · rcases owner with - | v | ⟨e | s⟩
    · exact join_singleton _
    · exact join_singleton _
    · cases e with
      | constant c => exact join_ofConstant core c.value
      | _ => exact join_singleton _
    · exact join_singleton _

/-- The parts of a split text make up the text. -/
theorem splitTrivia_append (cs : List Char) :
    (splitTrivia cs).1 ++ ((splitTrivia cs).2.1 ++ (splitTrivia cs).2.2) = cs := by
  simp only [splitTrivia]
  rw [← List.reverse_append, List.takeWhile_append_dropWhile, List.reverse_reverse,
    List.takeWhile_append_dropWhile]

end Token

/-- The tokens of a fragment spell its text. -/
theorem Fragment.join_tokens (f : Fragment) : Token.join f.tokens = f.text := by
  have hsplit := Token.splitTrivia_append f.text.toList
  rcases h : Token.splitTrivia f.text.toList with ⟨lead, core, trail⟩
  rw [h] at hsplit
  have hcore : Token.join (if core.isEmpty then [] else Token.tagCore core f.owner) =
      String.ofList core := by
    cases core with
    | nil => rfl
    | cons c cs => exact Token.join_tagCore (c :: cs) f.owner
  rw [Fragment.tokens, h]
  simp only [Token.join_append, Token.join_tagTrivia, hcore]
  rw [← String.ofList_append, ← String.ofList_append, List.append_assoc, hsplit,
    String.ofList_toList]

/-- Tokens spell the text they were split from. -/
theorem Token.join_tagTokens (frags : List Fragment) :
    Token.join (tagTokens frags) = Fragment.join frags := by
  induction frags with
  | nil => rfl
  | cons f frags ih =>
    rw [← List.singleton_append, Fragment.join_append, ← ih, tagTokens, List.flatMap_append,
      Token.join_append]
    simp [tagTokens, Fragment.join_tokens, Fragment.join]

/-! ## The tokens of a span -/

/-- Fragments in turn have their tokens in turn. -/
theorem tagTokens_append (frags more : List Fragment) :
    tagTokens (frags ++ more) = tagTokens frags ++ tagTokens more := by
  simp [tagTokens]

/-- The tokens of a span of fragments are a span of tokens. -/
theorem tokenRange_ofSpan (front span back : List Fragment) :
    tokenRange (.ofSpan front span) (front ++ (span ++ back)) =
      .ofSpan (tagTokens front) (tagTokens span) := by
  rw [tokenRange, Range.slice_ofSpan, Range.start_ofSpan, Int.toNat_natCast, List.take_left]
  rfl

/-- The tokens of a span are a slice of all tokens. -/
theorem Range.slice_tagTokens (front span back : List Fragment) :
    (Range.ofSpan (tagTokens front) (tagTokens span)).slice (tagTokens (front ++ (span ++ back))) =
      tagTokens span := by
  rw [tagTokens_append, tagTokens_append, Range.slice_ofSpan]

/-! ## The range of a node -/

/-- A span of a text outside of which nothing comes from the given identities. -/
def Located (ids : List Nat) (span whole : List Fragment) : Prop :=
  ∃ before after, whole = before ++ (span ++ after) ∧
    Fragment.NoneFrom ids (before ++ after)

/-- A span of a part is a span of the whole. -/
theorem Located.wrap {ids : List Nat} {span whole : List Fragment} (h : Located ids span whole)
    (front back : List Fragment) (hnone : Fragment.NoneFrom ids (front ++ back)) :
    Located ids span (front ++ (whole ++ back)) := by
  obtain ⟨b, a, rfl, hba⟩ := h
  refine ⟨front ++ b, a ++ back, by simp, ?_⟩
  simp only [Fragment.noneFrom_append] at hba hnone ⊢
  exact ⟨⟨hnone.1, hba.1⟩, hba.2, hnone.2⟩

/-- Whether a fragment comes from one of the given nodes is told by identities. -/
theorem Fragment.ownedBy_iff {nodes : List Node} {f : Fragment} :
    f.ownedBy nodes = true ↔ f.From (nodes.map Node.id) := by
  cases h : f.owner with
  | empty => simp [Fragment.ownedBy, Fragment.From, h]
  | vacant v => simp [Fragment.ownedBy, Fragment.From, h]
  | filled n => simp [Fragment.ownedBy, Fragment.From, h, Node.same]

@[simp] theorem Fragment.isAnchor_filled (n : Node) :
    Fragment.isAnchor (.filled n) = Fragment.ownedBy (anchors n) := rfl

@[simp] theorem Operand.nodes_filled (n : Node) : Operand.nodes (.filled n) = n.nodes := rfl

/-- Whether a fragment of a text anchors the range of a node. -/
def Node.Anchored (n : Node) (frags : List Fragment) : Prop :=
  ∃ f ∈ frags, f.ownedBy (anchors n) = true

/-- The nodes that can anchor the range of a checked node are among its own. -/
theorem anchors_subset {n : Node} (hn : n ∈ n.nodes) : anchors n ⊆ n.nodes := by
  unfold anchors
  split
  · simpa using hn
  · exact List.filter_sublist.subset

/-- Taking stops at a fence. -/
private theorem takeWhile_append_fence {α : Type} {p : α → Bool} {xs ys : List α}
    (hxs : ∀ x ∈ xs, p x = true) (hys : ∀ y ∈ ys.head?, p y = false) :
    (xs ++ ys).takeWhile p = xs := by
  rw [List.takeWhile_append_of_pos hxs]
  cases ys with
  | nil => simp
  | cons y ys => simp [hys y rfl]

/-- A span of a text that holds only what is owned, between neighbours that are not. -/
structure Fenced (owned : Fragment → Bool) (before span after : List Fragment) : Prop where
  inside : ∀ f ∈ span, owned f = true
  left : ∀ f ∈ before.getLast?, owned f = false
  right : ∀ f ∈ after.head?, owned f = false

/-- The range of a node is found from the first fragment that anchors it and grows as far as the
neighbours that do not come from the node. -/
theorem findRangeWithin_fenced {n : Node} {before span after : List Fragment}
    (front back : List Fragment) (hfence : Fenced (Fragment.ownedBy n.nodes) before span after)
    (hbefore : ∀ f ∈ before, f.ownedBy (anchors n) = false) (hanchor : n.Anchored span) :
    findRangeWithin (front ++ ((before ++ (span ++ after)) ++ back)) (.filled n)
      (.ofSpan front (before ++ (span ++ after))) = some (.ofSpan (front ++ before) span) := by
  obtain ⟨j, hj⟩ : ∃ j, span.findIdx? (Fragment.ownedBy (anchors n)) = some j := by
    rw [← Option.isSome_iff_exists, List.findIdx?_isSome, List.any_eq_true]
    exact hanchor
  obtain ⟨hlt, -⟩ := List.findIdx?_eq_some_iff_getElem.1 hj
  have hindex : (before ++ (span ++ after)).findIdx? (Fragment.ownedBy (anchors n)) =
      some (j + before.length) := by
    rw [List.findIdx?_append, List.findIdx?_eq_none_iff.2 hbefore, List.findIdx?_append, hj]
    rfl
  have hleft : ((before ++ (span ++ after)).take (j + before.length)).reverse.takeWhile
      (Fragment.ownedBy n.nodes) = (span.take j).reverse := by
    rw [Nat.add_comm, List.take_length_add_append, List.take_append_of_le_length (by omega),
      List.reverse_append]
    apply takeWhile_append_fence
    · intro f hf
      exact hfence.inside f (List.mem_of_mem_take (List.mem_reverse.1 hf))
    · rw [List.head?_reverse]
      exact hfence.left
  have hright : ((before ++ (span ++ after)).drop (j + before.length + 1)).takeWhile
      (Fragment.ownedBy n.nodes) = span.drop (j + 1) := by
    rw [Nat.add_right_comm, Nat.add_comm, List.drop_length_add_append,
      List.drop_append_of_le_length (by omega)]
    apply takeWhile_append_fence
    · intro f hf
      exact hfence.inside f (List.mem_of_mem_drop hf)
    · exact hfence.right
  simp only [findRangeWithin, Fragment.isAnchor_filled, Operand.nodes_filled, Range.clip_ofSpan,
    Range.slice_ofSpan, hindex]
  rw [hleft, hright]
  simp only [Range.ofSpan, Option.some.injEq, Range.mk.injEq,
    List.length_reverse, List.length_take, List.length_drop, List.length_append]
  omega

/-- The range of a fenced span is found if nothing before it anchors the node. -/
theorem findRange_fenced {n : Node} {before span after : List Fragment}
    (hfence : Fenced (Fragment.ownedBy n.nodes) before span after)
    (hbefore : ∀ f ∈ before, f.ownedBy (anchors n) = false) (hanchor : n.Anchored span) :
    findRange (before ++ (span ++ after)) (.filled n) = some (.ofSpan before span) := by
  have hwhole : (⟨0, (before ++ (span ++ after)).length - 1⟩ : Range) =
      .ofSpan [] (before ++ (span ++ after)) := by
    simp [Range.ofSpan]
  have hfound := findRangeWithin_fenced [] [] hfence hbefore hanchor
  rw [List.nil_append, List.append_nil] at hfound
  rw [findRange, hwhole, hfound, List.nil_append]

/-- Outside the span of a node nothing comes from it. -/
private theorem not_ownedBy_outside {n : Node} {before after : List Fragment}
    (hnone : Fragment.NoneFrom n.ids (before ++ after)) :
    ∀ f ∈ before ++ after, f.ownedBy n.nodes = false := by
  intro f hf
  rw [Bool.eq_false_iff]
  exact fun hown => hnone f hf (Fragment.ownedBy_iff.1 hown)

/-- Outside the span of a node nothing anchors its range. -/
private theorem not_anchor_outside {n : Node} {before after : List Fragment} (hn : n ∈ n.nodes)
    (hnone : Fragment.NoneFrom n.ids (before ++ after)) :
    ∀ f ∈ before ++ after, f.ownedBy (anchors n) = false := by
  intro f hf
  rw [Bool.eq_false_iff]
  intro hown
  refine hnone f hf ((Fragment.ownedBy_iff.1 hown).mono ?_)
  exact List.map_subset _ (anchors_subset hn)

/-- The range of a node is found where one of its fragments anchors it, and is all of
its span. -/
theorem findRangeWithin_located {n : Node} {before span after : List Fragment}
    (front back : List Fragment) (hn : n ∈ n.nodes) (hspan : Fragment.AllFrom n.ids span)
    (hnone : Fragment.NoneFrom n.ids (before ++ after)) (hanchor : n.Anchored span) :
    findRangeWithin (front ++ ((before ++ (span ++ after)) ++ back)) (.filled n)
      (.ofSpan front (before ++ (span ++ after))) = some (.ofSpan (front ++ before) span) := by
  apply findRangeWithin_fenced front back _ _ hanchor
  · have hout := not_ownedBy_outside hnone
    constructor
    · intro f hf
      exact Fragment.ownedBy_iff.2 (hspan f hf)
    · intro f hf
      exact hout f (List.mem_append_left _ (List.mem_of_getLast? hf))
    · intro f hf
      exact hout f (List.mem_append_right _ (List.mem_of_head? hf))
  · intro f hf
    exact not_anchor_outside hn hnone f (List.mem_append_left _ hf)

/-- A node that is looked for in its own range is all of it. -/
theorem findRangeWithin_self {n : Node} {span : List Fragment} (front back : List Fragment)
    (hn : n ∈ n.nodes) (hspan : Fragment.AllFrom n.ids span) (hanchor : n.Anchored span) :
    findRangeWithin (front ++ (span ++ back)) (.filled n) (.ofSpan front span) =
      some (.ofSpan front span) := by
  have hnone : Fragment.NoneFrom n.ids ([] ++ []) := by simp
  have h := findRangeWithin_located front back hn hspan hnone hanchor
  simpa only [List.nil_append, List.append_nil] using h

/-- Without an anchoring fragment a node has no range. -/
theorem findRangeWithin_none {n : Node} {before span after : List Fragment}
    (front back : List Fragment) (hn : n ∈ n.nodes)
    (hnone : Fragment.NoneFrom n.ids (before ++ after)) (hanchor : ¬ n.Anchored span) :
    findRangeWithin (front ++ ((before ++ (span ++ after)) ++ back)) (.filled n)
      (.ofSpan front (before ++ (span ++ after))) = none := by
  have hout := not_anchor_outside hn hnone
  have hindex : (before ++ (span ++ after)).findIdx? (Fragment.ownedBy (anchors n)) = none := by
    rw [List.findIdx?_eq_none_iff]
    intro f hf
    rw [List.mem_append, List.mem_append] at hf
    rcases hf with hf | hf | hf
    · exact hout f (List.mem_append_left _ hf)
    · rw [Bool.eq_false_iff]
      exact fun hown => hanchor ⟨f, hf, hown⟩
    · exact hout f (List.mem_append_right _ hf)
  simp only [findRangeWithin, Fragment.isAnchor_filled, Range.clip_ofSpan, Range.slice_ofSpan,
    hindex]

/-- A node whose text is a span has that span as its range, if a fragment of the span
anchors it, and no range otherwise. -/
theorem findRange_eq_some_iff {n : Node} {before span after : List Fragment} {r : Range}
    (hn : n ∈ n.nodes) (hspan : Fragment.AllFrom n.ids span)
    (hnone : Fragment.NoneFrom n.ids (before ++ after)) :
    findRange (before ++ (span ++ after)) (.filled n) = some r ↔
      n.Anchored span ∧ r = .ofSpan before span := by
  have hwhole : (⟨0, (before ++ (span ++ after)).length - 1⟩ : Range) =
      .ofSpan [] (before ++ (span ++ after)) := by
    simp [Range.ofSpan]
  rw [findRange, hwhole]
  by_cases hanchor : n.Anchored span
  · have hfound := findRangeWithin_located [] [] hn hspan hnone hanchor
    rw [List.nil_append, List.append_nil] at hfound
    rw [hfound, Option.some.injEq, eq_comm]
    exact (and_iff_right hanchor).symm
  · have hfound := findRangeWithin_none [] [] hn hnone hanchor
    rw [List.nil_append, List.append_nil] at hfound
    rw [hfound]
    refine ⟨fun h => ?_, fun h => absurd h.1 hanchor⟩
    cases h

end Stepwise
