import Stepwise.Proofs.Focus
import Stepwise.View.Highlight

/-!
# Proofs - Views follow evaluation

In every state of a run of a program the view of the program can be built.  It
shows the text of the program with the text of one node replaced by what evaluation
has made of it, marks that text, and inside it marks what the next step reduces.
A state that stands at a jump or at an undeclaration, and one that has ended, shows
the program as it is.

Main results:

- `Source.occurs`: what a lowered statement stands for occurs in the program, and
  no identity occurs twice in it.
- `Stmt.Renewed.counterpart`: what the active statement stands for.
- `Source.substitute`: the program with one node replaced.
- `Source.position`: what a state of a run stands at.
- `view_follows`: the views of a run.
-/

namespace Stepwise

/-! ## Programs in which no node occurs twice -/

/-- A program as checked builders produce it, in which no node occurs twice and every
identity was given out before. -/
structure Source (tree : List Stmt) (s : Supply) : Prop where
  checked : Stmt.AllChecked tree
  nodup : (Stmt.listIds tree).Nodup
  old : ∀ k ∈ Stmt.listIds tree, k < s.node

namespace Source

variable {tree code : List Stmt} {s s' : Supply} {st : Stmt} {n : Node}

/-- What a lowered statement stands for occurs in one statement of the program. -/
theorem occurs (hlower : Stmt.lowerAll tree s = .ok (code, s')) (hst : st ∈ code)
    (hn : st.counterpart? = some n) :
    ∃ pre S post closing, tree = pre ++ S :: post ∧ S.Holds n false closing := by
  obtain ⟨hlayout, -⟩ := Stmt.lowerAll_layout hlower
  obtain ⟨S, hS, hholds⟩ := hlayout.holds hst hn
  obtain ⟨pre, post, rfl⟩ := List.append_of_mem hS
  obtain ⟨closing, hholds⟩ := hholds false
  exact ⟨pre, S, post, closing, rfl, hholds⟩

/-- The identities of what a lowered statement stands for differ and are identities
of the program. -/
theorem counterpart_ids (h : Source tree s) (hlower : Stmt.lowerAll tree s = .ok (code, s'))
    (hst : st ∈ code) (hn : st.counterpart? = some n) :
    n.ids.Nodup ∧ ∀ k ∈ n.ids, k < s.node := by
  obtain ⟨pre, S, post, closing, rfl, hholds⟩ := occurs hlower hst hn
  have hsub : S.ids.Sublist (Stmt.listIds (pre ++ S :: post)) := by
    rw [Stmt.listIds_append, Stmt.listIds_cons]
    exact (List.sublist_append_left _ _).trans (List.sublist_append_right _ _)
  exact ⟨hholds.nodup (h.nodup.sublist hsub), fun k hk =>
    h.old k (hsub.subset (hholds.subperm.subset hk))⟩

/-- The identities of a lowered statement that stands for something differ and were
given out by the lowering or before. -/
theorem code_ids (h : Source tree s) (hlower : Stmt.lowerAll tree s = .ok (code, s'))
    (hst : st ∈ code) (hn : st.counterpart? = some n) :
    st.ids.Nodup ∧ ∀ k ∈ st.ids, k < s'.node := by
  obtain ⟨-, hdrawn⟩ := Stmt.lowerAll_layout hlower
  obtain ⟨hnodup, hlt⟩ := h.counterpart_ids hlower hst hn
  have hle := hdrawn.le
  have hlt' : ∀ k ∈ n.ids, k < s'.node := fun k hk => Nat.lt_of_lt_of_le (hlt k hk) hle
  rcases Stmt.counterpart?_eq_some hn with ⟨-, rfl⟩ | ⟨id, c, onTrue, onFalse, o, rfl, rfl⟩
  · exact ⟨hnodup, hlt'⟩
  · obtain ⟨hid, hid'⟩ := hdrawn.id_mem hst rfl
    simp only [Stmt.ids_condJump, List.nodup_cons, List.mem_cons, forall_eq_or_imp]
    refine ⟨⟨fun hmem => ?_, hnodup⟩, hid', hlt'⟩
    exact absurd (hlt _ hmem) (Nat.not_lt.2 hid)

end Source

/-! ## What the active statement stands for -/

/-- Statements around an expression stand for something. -/
theorem Frame.counterpart?_fill (frame : Frame) (id : NodeId) (e : Expr) :
    ∃ n, (frame.fill id e).counterpart? = some n := by
  cases frame <;> exact ⟨_, rfl⟩

/-- The expressions of lowered code have identities of their own. -/
theorem Source.distinct {tree code : List Stmt} {s s' : Supply} (h : Source tree s)
    (hlower : Stmt.lowerAll tree s = .ok (code, s')) : State.Distinct code s'.node := by
  intro frame id e hmem
  obtain ⟨n, hn⟩ := frame.counterpart?_fill id e
  obtain ⟨hnodup, hlt⟩ := h.code_ids hlower hmem hn
  have hsub : e.ids.Sublist (frame.fill id e).ids := by
    rw [Frame.ids_fill, List.append_nil]
    exact (List.sublist_append_right _ _).cons id
  exact ⟨hnodup.sublist hsub, fun k hk => hlt k (hsub.subset hk)⟩

/-- What the active statement stands for is what the current one stands for, or has
new identities in the place of some of its own. -/
theorem Stmt.Renewed.counterpart {a b : Nat} {st st' : Stmt} {n : Node} (h : st.Renewed a b st')
    (hn : st.counterpart? = some n) (hnodup : st.ids.Nodup) (hlt : ∀ k ∈ st.ids, k < a) :
    st'.ids.Nodup ∧ ∃ n', st'.counterpart? = some n' ∧ n.Exchanges n' ∧
      (n' = n ∨ Renews a n.ids n'.ids b) := by
  cases h with
  | start =>
    refine ⟨hnodup, n, hn, ?_, .inl rfl⟩
    rcases Stmt.counterpart?_eq_some hn with ⟨hs, rfl⟩ | ⟨id, c, onTrue, onFalse, o, rfl, rfl⟩
    · exact .stmt hs hs
    · exact .expr c c
  | @refill id id' e e' frame hid hid' hmem hren =>
    rw [Frame.ids_fill] at hnodup hlt
    have hall := hren.cover frame.ids [] hnodup hlt hid hid' hmem
    rw [← Frame.ids_fill, ← Frame.ids_fill] at hall
    refine ⟨hall.nodup, ?_⟩
    cases frame with
    | expression =>
      cases hn
      exact ⟨_, rfl, .stmt rfl rfl, .inr hall⟩
    | declaration t x =>
      cases hn
      exact ⟨_, rfl, .stmt rfl rfl, .inr hall⟩
    | condJump t f o =>
      cases hn
      exact ⟨_, rfl, .expr e e', .inr hren⟩

/-! ## The program with one node replaced -/

section Substitute

variable {n n' : Node} {st : Stmt} {sup : Supply}

/-- A node that is replaced by itself stays where it is. -/
theorem substituteTop_same (h : n'.same n = true) (st : Stmt) (sup : Supply) :
    substituteTop (.filled n) (.filled n') (.filled st) sup = .ok (.filled st, sup) := by
  simp [substituteTop, Operand.substitute, Operand.same, h]

/-- A statement without the node to be replaced stays as it is. -/
theorem substituteTop_absent (hst : st.Checked) (h : n.id ∉ st.ids) :
    substituteTop (.filled n) (.filled n') (.filled st) sup = .ok (.filled st, sup) := by
  cases hsame : n'.same n with
  | true => exact substituteTop_same hsame st sup
  | false =>
    have hnone : st.replace? n.id (.filled n') sup = .ok (none, sup) :=
      Stmt.replace?_absent hst h
    simp [substituteTop, Operand.substitute, Operand.same, hsame, Node.replace?, hnone]

/-- Substituting in a statement of the program replaces what it holds. -/
theorem substituteTop_replace {st' : Stmt} {sup' : Supply} (hsame : n'.same n = false)
    (h : st.replace? n.id (.filled n') sup = .ok (some (.stmt st'), sup')) :
    substituteTop (.filled n) (.filled n') (.filled st) sup = .ok (.filled st', sup') := by
  simp [substituteTop, Operand.substitute, Operand.same, hsame, Node.replace?, h, Operand.stmt]

/-- Statements that all stay as they are. -/
theorem mapM_substituteTop_absent {ss : List Stmt} (hss : Stmt.AllChecked ss)
    (h : n.id ∉ Stmt.listIds ss) :
    (ss.map Slot.filled).mapM (substituteTop (.filled n) (.filled n')) sup =
      .ok (ss.map .filled, sup) := by
  induction ss with
  | nil => rfl
  | cons st ss ih =>
    simp only [Stmt.listIds_cons, List.mem_append, not_or] at h
    simp only [List.map_cons, List.mapM_cons, Build.bind_apply, Build.pure_apply,
      substituteTop_absent hss.1 h.1, ih hss.2 h.2]

/-- A program with one statement changed. -/
theorem mapM_substituteTop {pre post : List Stmt} {st' : Stmt} {sup' : Supply}
    (hpre : Stmt.AllChecked pre) (hpost : Stmt.AllChecked post)
    (hpre' : n.id ∉ Stmt.listIds pre) (hpost' : n.id ∉ Stmt.listIds post)
    (h : substituteTop (.filled n) (.filled n') (.filled st) sup = .ok (.filled st', sup')) :
    ((pre ++ st :: post).map Slot.filled).mapM (substituteTop (.filled n) (.filled n')) sup =
      .ok ((pre ++ st' :: post).map .filled, sup') := by
  simp only [List.map_append, List.map_cons, List.mapM_append, List.mapM_cons, Build.bind_apply,
    Build.pure_apply, mapM_substituteTop_absent hpre hpre', mapM_substituteTop_absent hpost hpost',
    h]

/-- Nothing in a program but the node that is replaced has one of the new identities. -/
theorem Source.away {tree : List Stmt} {s : Supply} {a b : Nat} (h : Source tree s)
    (ha : s.node ≤ a) (hren : n' = n ∨ Renews a n.ids n'.ids b) :
    ∀ k ∈ Stmt.listIds tree, k ∉ n.ids → k ∉ n'.ids := by
  intro k hk hkn hkn'
  rcases hren with rfl | hren
  · exact hkn hkn'
  · rcases hren.mem k hkn' with hold | hnew
    · exact hkn (List.mem_of_mem_tail hold)
    · exact absurd (Nat.lt_of_lt_of_le (h.old k hk) ha) (Nat.not_lt.2 hnew.1)

/-- The program with what the current statement stands for replaced by what the
active one stands for. -/
theorem Source.substitute {pre post : List Stmt} {S : Stmt} {closing : Bool} {s : Supply} {a : Nat}
    (h : Source (pre ++ S :: post) s) (ha : s.node ≤ a) (hholds : S.Holds n false closing)
    (hn' : n'.Checked) (hex : n.Exchanges n') (hren : n' = n ∨ Renews a n.ids n'.ids sup.node) :
    ∃ S' sup', ((pre ++ S :: post).map Slot.filled).mapM
        (substituteTop (.filled n) (.filled n')) sup = .ok ((pre ++ S' :: post).map .filled, sup') ∧
      S.Swapped n n' false closing S' ∧ S'.Checked ∧
      n'.ids.Disjoint (Stmt.listIds pre ++ Stmt.listIds post) ∧
      Grafted n.ids n'.ids sup.node (Stmt.listIds (pre ++ S :: post))
        (Stmt.listIds (pre ++ S' :: post)) sup'.node := by
  obtain ⟨hpre, hS, hpost⟩ := Stmt.allChecked_append.1 h.checked
  have hn := hholds.checked hS
  have hsub := hholds.subperm.subset
  have hperm (S : Stmt) : (Stmt.listIds (pre ++ S :: post)).Perm
      (S.ids ++ (Stmt.listIds pre ++ Stmt.listIds post)) := by
    rw [Stmt.listIds_append, Stmt.listIds_cons]
    exact List.perm_append_comm_assoc ..
  have hnodup := (hperm S).nodup_iff.1 h.nodup
  have hdisj := List.disjoint_of_nodup_append hnodup
  have hrest : n.id ∉ Stmt.listIds pre ++ Stmt.listIds post := fun hmem =>
    hdisj (hsub hn.id_mem_ids) hmem
  rw [List.mem_append, not_or] at hrest
  have hmem : ∀ {k : Nat}, k ∈ S.ids → k ∈ Stmt.listIds (pre ++ S :: post) := fun hk =>
    (hperm S).mem_iff.2 (List.mem_append_left _ hk)
  have haway := h.away ha hren
  have haround : n'.ids.Disjoint (Stmt.listIds pre ++ Stmt.listIds post) := fun k hk hk' =>
    haway k ((hperm S).mem_iff.2 (List.mem_append_right _ hk'))
      (fun hkn => hdisj (hsub hkn) hk') hk
  rcases hren with rfl | hren
  · have hsame : n'.same n' = true := by simp [Node.same]
    exact ⟨S, sup, mapM_substituteTop hpre hpost hrest.1 hrest.2 (substituteTop_same hsame S sup),
      hholds.swapped_self hnodup.of_append_left, hS, haround,
      (Grafted.same hholds.subperm _).beside (hperm S) (hperm S)⟩
  · have hnlt : ∀ k ∈ n.ids, k < a := fun k hk =>
      Nat.lt_of_lt_of_le (h.old k (hmem (hsub hk))) ha
    have hgone := hren.head_notMem (hholds.nodup hnodup.of_append_left) hnlt hn.head?_ids
    have hsame : n'.same n = false := by
      rw [Node.same, beq_eq_false_iff_ne]
      intro heq
      exact hgone (heq ▸ hn'.id_mem_ids)
    obtain ⟨S', sup', hrep, hswap, hgraft⟩ := hholds.replace hS hnodup.of_append_left hn.id_mem_ids
      hex (hren.lt hnlt) fun k hk => haway k (hmem hk)
    exact ⟨S', sup', mapM_substituteTop hpre hpost hrest.1 hrest.2
      (substituteTop_replace hsame hrep), hswap, hswap.checked hS hn', haround,
      hgraft.beside (hperm S) (hperm S')⟩

end Substitute

/-! ## What is replaced and what is marked -/

section Marks

variable {n n' : Node} {st st' : Stmt}

/-- What the active statement stands for replaces what the current one stands for. -/
theorem replacementFor_counterpart (hflat : st.Flat) (hst : st.Checked) (hst' : st'.Checked)
    (hn : st.counterpart? = some n) (hn' : st'.counterpart? = some n') (hex : n.Exchanges n') :
    replacementFor (.filled st) (.filled (.stmt st')) = .ok ⟨.filled n, .filled n'⟩ := by
  rcases Stmt.counterpart?_eq_some hn with ⟨hs, rfl⟩ | ⟨id, c, onTrue, onFalse, o, rfl, rfl⟩
  · obtain rfl : n' = .stmt st' := by
      rcases Stmt.counterpart?_eq_some hn' with ⟨-, rfl⟩ | ⟨id, c, onTrue, onFalse, o, -, rfl⟩
      · rfl
      · cases hex
    cases st with
    | expression id v => rfl
    | declaration id t x v => rfl
    | _ => cases hs
  · obtain ⟨id', c', onTrue', onFalse', o', rfl, rfl⟩ :
        ∃ id' c' t f o', st' = .condJump id' c' t f o' ∧ n' = .expr c' := by
      rcases Stmt.counterpart?_eq_some hn' with ⟨-, rfl⟩ | hjump
      · cases hex
      · exact hjump
    have hc := Operand.expr_of_checked hst.1
    have hc' := Operand.expr_of_checked hst'.1
    cases o with
    | ifThen k d b =>
      cases hflat
      simp [replacementFor, hc, hc', bind, Except.bind]
    | expression k v =>
      cases hflat
      simp [replacementFor, Operand.optional, hc, hc', bind, Except.bind]
    | _ => cases hflat

/-- What the next step reduces is all of the active statement, or a part of its
expression that can be told from the text around it. -/
theorem redex_cases (hst : st.Checked) (hnodup : st.ids.Nodup) (hn : st.counterpart? = some n) :
    st.redex = .stmt st ∨ ∃ frame id e, st = Frame.fill frame id e ∧ st.redex = .expr e.redex ∧
      e.Focuses e.redex := by
  have hfill : ∀ (frame : Frame) (id : NodeId) (e : Expr), st = frame.fill id e →
      st.redex = .stmt st ∨ ∃ frame id e, st = Frame.fill frame id e ∧ st.redex = .expr e.redex ∧
        e.Focuses e.redex := by
    rintro frame id e rfl
    cases he : e.constant? with
    | some c => exact .inl (by rw [Stmt.redex_fill, he])
    | none =>
      have hids : e.ids.Nodup := by
        rw [Frame.ids_fill, List.append_nil] at hnodup
        exact hnodup.of_cons.of_append_right
      exact .inr ⟨frame, id, e, rfl, by rw [Stmt.redex_fill, he],
        Expr.redex_focuses hst.of_fill he hids⟩
  cases st with
  | expression id v =>
    cases v with
    | none => exact .inl rfl
    | some e => exact hfill .expression id e rfl
  | declaration id t x v =>
    cases v with
    | none => exact .inl rfl
    | some e => exact hfill (.declaration t x) id e rfl
  | condJump id c t f o => exact hfill (.condJump t f o) id c rfl
  | _ => cases hn

/-- What is marked inside the replacement: all of it for a statement, and the part
reduced next otherwise. -/
theorem focus_cases {closing : Bool} (hst : st.Checked) (hnodup : st.ids.Nodup)
    (hn : st.counterpart? = some n) (hclosing : ∀ e, n = .expr e → closing = false) :
    ∃ focus m, Operand.redex (.filled (.stmt st)) = .ok focus ∧
      (if focus.same (.filled (.stmt st)) then .filled n else focus) = Slot.filled m ∧
      ((∃ st₀, st.redex = .stmt st₀) ∧ m = n ∨
        ∃ e, st.redex = .expr e ∧ m = .expr e ∧ Located e.ids e.fragments (n.span closing) ∧
          e.Checked ∧ e.constant? = none) := by
  rcases redex_cases hst hnodup hn with hredex | ⟨frame, id, e, rfl, hredex, hfocus⟩
  · refine ⟨.filled (.stmt st), n, ?_, ?_, .inl ⟨⟨st, hredex⟩, rfl⟩⟩
    · simp [Operand.redex, Node.redex, hredex, Operand.node, Operand.stmt, Operand.reached]
    · simp [Operand.same, Node.same]
  · refine ⟨.filled (.expr e.redex), .expr e.redex, ?_, ?_, .inr ⟨e.redex, hredex, rfl, ?_,
      hfocus.checked, hfocus.constant?⟩⟩
    · simp [Operand.redex, Node.redex, hredex, Operand.node, Operand.expr_of_checked hfocus.checked,
        Operand.reached]
    · have hmem : e.redex.id ∈ e.ids :=
        hfocus.subset (List.mem_of_mem_head? (Expr.head?_ids hfocus.checked))
      have hne : e.redex.id ≠ id := by
        rintro rfl
        rw [Frame.ids_fill, List.append_nil] at hnodup
        exact (List.nodup_cons.1 hnodup).1 (List.mem_append_right _ hmem)
      simp [Operand.same, Node.same, Node.id, hne]
    · exact Frame.located hfocus hnodup hn (hclosing e)

end Marks

/-! ## What a view shows -/

/-- A view that shows a program as it is, with nothing marked. -/
structure View.Plain (v : View) (tree : List Stmt) : Prop where
  text : Token.join v.tokens = Fragment.join (render tree)
  range : v.range = none
  focus : v.focus = none

/-- A view that shows a program with the text of `n` replaced by the text of `n'`, both
without a closing semicolon that would end the update of a loop.  That text is marked if
something in it anchors its range, and then the part of it that is `redex` is marked
too; a statement stands for all of it. -/
structure View.Shows (v : View) (tree : List Stmt) (n n' redex : Node) (closing : Bool)
    (before after : List Fragment) : Prop where
  occurs : ∃ S ∈ tree, S.Holds n false closing
  source : render tree = before ++ (n.span closing ++ after)
  text : Token.join v.tokens =
    Fragment.join before ++ (Fragment.join (n'.span closing) ++ Fragment.join after)
  marked : v.range.isSome = true ↔ n'.Anchored (n'.span closing)
  range : ∀ r, v.range = some r → Token.join (v.tokens.take r.start.toNat) = Fragment.join before ∧
    Token.join (r.slice v.tokens) = Fragment.join (n'.span closing)
  focus : ∀ r, v.range = some r → ∃ f, v.focus = some f ∧ r.start ≤ f.start ∧ f.stop ≤ r.stop ∧
    (∀ e, redex = .expr e → Token.join (f.slice v.tokens) = (Node.expr e).source) ∧
    (∀ st, redex = .stmt st → f = r)

section Shows

variable {tree : List Stmt} {n n' focus redex : Node} {closing : Bool}
  {before span after frags : List Fragment}

/-- What is marked in a text is the span of the node, and in it what is found. -/
theorem View.ofFragments_range {r : Range} (hn : n ∈ n.nodes)
    (hspan : Fragment.AllFrom n.ids span) (hnone : Fragment.NoneFrom n.ids (before ++ after))
    (h : (View.ofFragments (before ++ (span ++ after)) (.filled n) (.filled focus)).range =
      some r) :
    n.Anchored span ∧ r = .ofSpan (tagTokens before) (tagTokens span) ∧
      (View.ofFragments (before ++ (span ++ after)) (.filled n) (.filled focus)).focus =
        (findRangeWithin (before ++ (span ++ after)) (.filled focus) (.ofSpan before span)).map
          (tokenRange · (before ++ (span ++ after))) := by
  unfold View.ofFragments at h ⊢
  split at h
  · cases h
  · rename_i r₀ hfound
    obtain ⟨hanchor, rfl⟩ := (findRange_eq_some_iff hn hspan hnone).1 hfound
    rw [tokenRange_ofSpan, Option.some.injEq] at h
    exact ⟨hanchor, h.symm, rfl⟩

/-- A node is marked in a text when a fragment of its span anchors its range. -/
theorem View.isSome_ofFragments_range (hn : n ∈ n.nodes) (hspan : Fragment.AllFrom n.ids span)
    (hnone : Fragment.NoneFrom n.ids (before ++ after)) :
    (View.ofFragments (before ++ (span ++ after)) (.filled n) (.filled focus)).range.isSome =
      true ↔ n.Anchored span := by
  have hfound (r : Range) := findRange_eq_some_iff (r := r) hn hspan hnone
  unfold View.ofFragments
  split
  · rename_i hmissing
    refine ⟨fun h => ?_, fun hanchor => ?_⟩
    · cases h
    · rw [(hfound _).2 ⟨hanchor, rfl⟩] at hmissing
      cases hmissing
  · rename_i r₀ hr
    exact ⟨fun _ => ((hfound r₀).1 hr).1, fun _ => rfl⟩

/-- The view of a text in which a node was replaced. -/
theorem View.ofFragments_shows (hocc : ∃ S ∈ tree, S.Holds n false closing)
    (hdiffer : Differ n'.ids (n.span closing) (n'.span closing) (render tree) frags)
    (hn' : n' ∈ n'.nodes) (hspan : Fragment.AllFrom n'.ids (n'.span closing))
    (hfocus : (∃ st, redex = .stmt st) ∧ focus = n' ∨
      ∃ e, redex = .expr e ∧ focus = .expr e ∧ Located e.ids e.fragments (n'.span closing) ∧
        e.Checked ∧ e.constant? = none) :
    ∃ before after, (View.ofFragments frags (.filled n') (.filled focus)).Shows tree n n' redex
      closing before after := by
  obtain ⟨before, after, before', after', hsource, rfl, hbefore, hafter, hnone⟩ := hdiffer
  have htokens : (View.ofFragments (before' ++ (n'.span closing ++ after')) (.filled n')
      (.filled focus)).tokens = tagTokens (before' ++ (n'.span closing ++ after')) := by
    unfold View.ofFragments
    split <;> rfl
  have hjoin : ∀ {frags frags' : List Fragment},
      frags.map Fragment.text = frags'.map Fragment.text →
      Fragment.join frags' = Fragment.join frags := by
    intro frags frags' h
    rw [Fragment.join, ← h, Fragment.join]
  refine ⟨before, after, hocc, hsource, ?_, View.isSome_ofFragments_range hn' hspan hnone,
    fun r hr => ?_, fun r hr => ?_⟩
  · rw [htokens, Token.join_tagTokens, Fragment.join_append, Fragment.join_append, hjoin hbefore,
      hjoin hafter]
  · obtain ⟨-, rfl, -⟩ := View.ofFragments_range hn' hspan hnone hr
    rw [htokens, Range.slice_tagTokens, Range.start_ofSpan, Int.toNat_natCast, tagTokens_append,
      List.take_left, Token.join_tagTokens, Token.join_tagTokens]
    exact ⟨hjoin hbefore, rfl⟩
  · obtain ⟨hanchor, rfl, hfound⟩ := View.ofFragments_range hn' hspan hnone hr
    rcases hfocus with ⟨⟨st, rfl⟩, rfl⟩ | ⟨e, rfl, rfl, hloc, he, hconst⟩
    · rw [findRangeWithin_self before' after' hn' hspan hanchor, Option.map_some,
        tokenRange_ofSpan] at hfound
      refine ⟨_, hfound, Int.le_refl _, Int.le_refl _, fun e he => ?_, fun _ _ => rfl⟩
      cases he
    · obtain ⟨b, a, hparts, hba⟩ := hloc
      have hf := findRangeWithin_located before' after' (Expr.mem_nodes_self he)
        (fun f hf => Expr.fragments_from hf) hba (Expr.anchored he hconst)
      have hassoc : before' ++ ((b ++ (e.fragments ++ a)) ++ after') =
          (before' ++ b) ++ (e.fragments ++ (a ++ after')) := by simp
      have hmark : (findRangeWithin (before' ++ (n'.span closing ++ after')) (.filled (.expr e))
          (.ofSpan before' (n'.span closing))).map
            (tokenRange · (before' ++ (n'.span closing ++ after'))) =
          some (.ofSpan (tagTokens (before' ++ b)) (tagTokens e.fragments)) := by
        rw [hparts, hf, Option.map_some, hassoc, tokenRange_ofSpan]
      rw [hmark] at hfound
      refine ⟨_, hfound, ?_, ?_, fun e' he' => ?_, fun st hst => ?_⟩
      · simp only [Range.start_ofSpan, tagTokens_append, List.length_append]
        omega
      · simp only [hparts, Range.stop_ofSpan, tagTokens_append, List.length_append]
        omega
      · cases he'
        rw [htokens, hparts, hassoc, Range.slice_tagTokens, Token.join_tagTokens]
        rfl
      · cases hst

end Shows

/-! ## Building the view -/

section Highlight

variable {tree : List Stmt} {n n' : Node} {st st' : Stmt} {sup : Supply}

/-- A program contains a node when it has its identity. -/
theorem any_contains (tree : List Stmt) (n : Node) :
    ((tree.map Slot.filled).any fun s => Operand.contains (s.map .stmt) (.filled n)) = true ↔
      n.id ∈ Stmt.listIds tree := by
  simp only [List.any_map, List.any_eq_true, Stmt.mem_listIds]
  simp [Operand.contains, Operand.nodes, Node.nodes, Node.same, Stmt.ids]

/-- The view of a program that does not contain what is to be replaced. -/
theorem highlight_plain {statement : Slot Stmt} {active focus : Operand} {r : Replacement}
    (htree : Stmt.AllChecked tree) (hr : replacementFor statement active = .ok r)
    (habs : ((tree.map Slot.filled).any fun s => Operand.contains (s.map .stmt) r.target) = false) :
    highlight tree statement active focus sup =
      .ok (⟨tagTokens (render tree), none, none⟩, sup) := by
  simp only [highlight, highlightSlots, Build.bind_apply, hr, Build.ofExcept_ok, habs,
    Bool.false_eq_true, ↓reduceIte, renderSlots_filled htree, Build.pure_apply]

/-- The view of a program in which a node is replaced. -/
theorem highlight_replaced {tree' : List Stmt} {sup' : Supply} {focus : Operand}
    (htree' : Stmt.AllChecked tree')
    (hr : replacementFor (.filled st) (.filled (.stmt st')) = .ok ⟨.filled n, .filled n'⟩)
    (hmem : n.id ∈ Stmt.listIds tree)
    (hsub : (tree.map Slot.filled).mapM (substituteTop (.filled n) (.filled n')) sup =
      .ok (tree'.map .filled, sup')) :
    highlight tree (.filled st) (.filled (.stmt st')) focus sup =
      .ok (.ofFragments (render tree') (.filled n')
        (if focus.same (.filled (.stmt st')) then .filled n' else focus), sup') := by
  simp only [highlight, highlightSlots, Build.bind_apply, hr, Build.ofExcept_ok,
    (any_contains tree n).2 hmem, ↓reduceIte, hsub, renderSlots_filled htree', Build.pure_apply]

/-- A state has a view when the part reduced next is known and the view can be built. -/
theorem State.view_eq {t : State} {focus : Operand} {v : View} {sup' : Supply}
    (hfocus : Operand.redex (t.active.map .stmt) = .ok focus)
    (hv : highlight tree t.current (t.active.map .stmt) focus t.supply = .ok (v, sup')) :
    t.view tree = .ok v := by
  simp [State.view, hfocus, hv, bind, Except.bind, pure, Except.pure]

/-- The text of statements does not come from other identities than theirs. -/
theorem render_noneFrom {ids : List Nat} {ss : List Stmt} (h : ids.Disjoint (Stmt.listIds ss)) :
    Fragment.NoneFrom ids (render ss) := by
  intro f hf
  simp only [render, List.mem_flatMap, List.mem_append, List.mem_singleton] at hf
  obtain ⟨st, hst, hf | rfl⟩ := hf
  · have hfrom : Fragment.AllFrom st.ids (st.fragments 0) := fun f hf => Stmt.fragments_from hf
    exact hfrom.noneFrom (fun k hk hk' => h hk (Stmt.mem_listIds.2 ⟨st, hst, hk'⟩)) f hf
  · simp [Fragment.From, Fragment.lineBreak]

/-- The text of a program with a node in one of its statements replaced. -/
theorem render_differ {pre post : List Stmt} {S S' : Stmt} {closing : Bool}
    (hswap : S.Swapped n n' false closing S')
    (hdisj : n'.ids.Disjoint (Stmt.listIds pre ++ Stmt.listIds post)) :
    Differ n'.ids (n.span closing) (n'.span closing) (render (pre ++ S :: post))
      (render (pre ++ S' :: post)) := by
  have hrender (st : Stmt) : render (pre ++ st :: post) =
      render pre ++ (Fragment.trim false (st.fragments 0) ++ (.lineBreak :: render post)) := by
    simp [render]
  rw [hrender, hrender]
  refine (hswap.differ 0).wrap rfl rfl ?_
  rw [List.disjoint_append_right] at hdisj
  rw [← List.singleton_append, Fragment.noneFrom_append, Fragment.noneFrom_append]
  refine ⟨render_noneFrom hdisj.1, ?_, render_noneFrom hdisj.2⟩
  simp [Fragment.NoneFrom, Fragment.From, Fragment.lineBreak]

end Highlight

/-! ## The positions of a run -/

section Run

variable {tree code : List Stmt} {s s' : Supply} {t : State} {st st' : Stmt} {n : Node}

/-- The positions of a run of lowered code: at its end, at a statement that stands for a part of
the program, or aside from the program, at a jump or at an undeclaration. -/
inductive State.Position (code : List Stmt) (s' : Supply) (t : State) : Prop
  | ended : t.done = true → t.current = .empty → t.active = .empty → Position code s' t
  | inPlace {st st' : Stmt} {n : Node} : st ∈ code → t.current = .filled st →
      t.active = .filled st' → st'.Checked → st.Renewed s'.node t.supply.node st' →
      st.counterpart? = some n → Position code s' t
  | aside {st : Stmt} : st ∈ code → t.current = .filled st → t.active = .filled st →
      st.counterpart? = none → ((∃ id l, st = .jump id l) ∨ ∃ id x, st = .undeclaration id x) →
      Position code s' t

/-- Every state of a run has one of the three positions. -/
theorem Source.position (h : Source tree s) (hlower : Stmt.lowerAll tree s = .ok (code, s'))
    (ht : State.Reaches (.init (code.map .filled) s') t) : t.Position code s' := by
  obtain ⟨hlayout, -⟩ := Stmt.lowerAll_layout hlower
  have hcode := hlayout.checked h.checked
  have hrenewed := State.Renewed.of_reaches hcode (h.distinct hlower) ht
  cases State.Placed.of_reaches hcode ht with
  | ended env out sup => exact .ended State.ended_done State.ended_current rfl
  | @standing i st st' env out sup hst hlabel hp hchecked =>
    have hmem : st ∈ code := List.mem_of_getElem? hst
    have hcurrent : (State.standing code i st' env out sup).current = .filled st :=
      State.standing_current hst
    have hren := hrenewed.active st st' hcurrent rfl
    cases hn : st.counterpart? with
    | some n => exact .inPlace hmem hcurrent rfl hchecked hren hn
    | none =>
      cases hren with
      | start => exact .aside hmem hcurrent rfl hn (hlayout.aside hmem hlabel hn)
      | @refill id id' e e' frame =>
        obtain ⟨n, hfill⟩ := frame.counterpart?_fill id e
        rw [hfill] at hn
        cases hn

/-- A jump or an undeclaration of lowered code is not in the program, and holds no node twice. -/
theorem Source.aside_ids (h : Source tree s) (hlower : Stmt.lowerAll tree s = .ok (code, s'))
    (hmem : st ∈ code) (haside : (∃ id l, st = .jump id l) ∨ ∃ id x, st = .undeclaration id x) :
    st.id ∉ Stmt.listIds tree ∧ st.ids.Nodup := by
  obtain ⟨hlayout, hdrawn⟩ := Stmt.lowerAll_layout hlower
  have hsource : st.isSource = false := by
    rcases haside with ⟨id, l, rfl⟩ | ⟨id, x, rfl⟩ <;> rfl
  have hid : st.id ∉ Stmt.listIds tree := fun hk =>
    absurd (h.old _ hk) (Nat.not_lt.2 (hdrawn.id_mem hmem hsource).1)
  refine ⟨hid, ?_⟩
  rcases haside with ⟨id, l, rfl⟩ | ⟨id, x, rfl⟩
  · exact List.nodup_singleton id
  · have hx : x.id ∈ Stmt.listIds tree := hlayout.sourceIds hmem (List.mem_singleton.2 rfl)
    rw [Stmt.ids_undeclaration, List.nodup_cons, List.mem_singleton]
    exact ⟨fun heq => hid (heq ▸ hx), List.nodup_singleton _⟩

/-! ## The views of a run -/

/-- A view built from the program `tree'`, which is `tree` with `n` replaced by `n'`, and in
which `n'` and a part of it are marked. -/
structure View.InPlace (v : View) (tree tree' : List Stmt) (n n' redex : Node) (closing : Bool)
    (sup : Supply) : Prop where
  occurs : ∃ S ∈ tree, S.Holds n false closing
  whole : ∀ e, n' = .expr e → closing = false
  checked : n'.Checked
  nodup : n'.ids.Nodup
  substituted : ∃ sup', (tree.map Slot.filled).mapM (substituteTop (.filled n) (.filled n')) sup =
    .ok (tree'.map .filled, sup')
  differ : Differ n'.ids (n.span closing) (n'.span closing) (render tree) (render tree')
  built : ∃ focus, v = .ofFragments (render tree') (.filled n') (.filled focus) ∧
    ((∃ st, redex = .stmt st) ∧ focus = n' ∨
      ∃ e, redex = .expr e ∧ focus = .expr e ∧ Located e.ids e.fragments (n'.span closing) ∧
        e.Checked ∧ e.constant? = none)

/-- What a statement stands for has no other identities than the statement. -/
theorem Stmt.nodup_counterpart (hnodup : st.ids.Nodup) (hn : st.counterpart? = some n) :
    n.ids.Nodup := by
  rcases Stmt.counterpart?_eq_some hn with ⟨-, rfl⟩ | ⟨id, c, onTrue, onFalse, o, rfl, rfl⟩
  · exact hnodup
  · exact hnodup.of_cons

/-- What the active statement stands for replaces what the current one stands for, and was
renewed since lowering. -/
theorem Source.replacement {sup : Supply} (h : Source tree s)
    (hlower : Stmt.lowerAll tree s = .ok (code, s')) (hmem : st ∈ code) (hchecked : st'.Checked)
    (hren : st.Renewed s'.node sup.node st') (hn : st.counterpart? = some n) :
    st'.ids.Nodup ∧ ∃ n', st'.counterpart? = some n' ∧ n.Exchanges n' ∧
      (n' = n ∨ Renews s'.node n.ids n'.ids sup.node) ∧
      replacementFor (.filled st) (.filled (.stmt st')) = .ok ⟨.filled n, .filled n'⟩ := by
  obtain ⟨hlayout, -⟩ := Stmt.lowerAll_layout hlower
  have hst := Stmt.allChecked_iff.1 (hlayout.checked h.checked) st hmem
  obtain ⟨hnodup, hlt⟩ := h.code_ids hlower hmem hn
  obtain ⟨hnodup', n', hn', hex, hids⟩ := hren.counterpart hn hnodup hlt
  exact ⟨hnodup', n', hn', hex, hids,
    replacementFor_counterpart (hlayout.flat st hmem) hst hchecked hn hn' hex⟩

/-- The view of a state whose current statement stands for something is built from the
program with what the active statement stands for in its place. -/
theorem Source.view_inPlace (h : Source tree s) (hlower : Stmt.lowerAll tree s = .ok (code, s'))
    (hmem : st ∈ code) (hcurrent : t.current = .filled st) (hactive : t.active = .filled st')
    (hchecked : st'.Checked) (hren : st.Renewed s'.node t.supply.node st')
    (hn : st.counterpart? = some n) :
    ∃ v n' closing tree', t.view tree = .ok v ∧ st'.counterpart? = some n' ∧
      v.InPlace tree tree' n n' st'.redex closing t.supply := by
  obtain ⟨hlayout, hdrawn⟩ := Stmt.lowerAll_layout hlower
  have hst := Stmt.allChecked_iff.1 (hlayout.checked h.checked) st hmem
  obtain ⟨pre, S, post, closing, rfl, hholds⟩ := Source.occurs hlower hmem hn
  obtain ⟨hnodup', n', hn', hex, hids, hr⟩ := h.replacement hlower hmem hchecked hren hn
  have hchecked' := hchecked.counterpart hn'
  obtain ⟨S', sup', hsub, hswap, hS', hdisj, -⟩ :=
    h.substitute hdrawn.le hholds hchecked' hex hids
  have htree' : Stmt.AllChecked (pre ++ S' :: post) := by
    obtain ⟨hpre, -, hpost⟩ := Stmt.allChecked_append.1 h.checked
    exact Stmt.allChecked_append.2 ⟨hpre, hS', hpost⟩
  have hid : n.id ∈ Stmt.listIds (pre ++ S :: post) :=
    Stmt.mem_listIds.2 ⟨S, by simp, hholds.subperm.subset (hst.counterpart hn).id_mem_ids⟩
  have hclosing : ∀ e, n' = .expr e → closing = false := by
    rintro e rfl
    cases hex
    exact hholds.closing_eq_false rfl
  obtain ⟨focus, m, hredex, hm, hcases⟩ := focus_cases hchecked hnodup' hn' hclosing
  have hfocus : Operand.redex (t.active.map .stmt) = .ok focus := by
    rw [hactive]
    exact hredex
  have hview : highlight (pre ++ S :: post) t.current (t.active.map .stmt) focus t.supply =
      .ok (.ofFragments (render (pre ++ S' :: post)) (.filled n') (.filled m), sup') := by
    rw [hcurrent, hactive, Slot.map_filled, highlight_replaced htree' hr hid hsub, hm]
  refine ⟨_, n', closing, pre ++ S' :: post, State.view_eq hfocus hview, hn', ?_⟩
  exact ⟨⟨S, by simp, hholds⟩, hclosing, hchecked', Stmt.nodup_counterpart hnodup' hn',
    ⟨sup', hsub⟩, render_differ hswap hdisj, m, rfl, hcases⟩

/-- The view of a state whose current statement stands for something. -/
theorem Source.view_shows (h : Source tree s) (hlower : Stmt.lowerAll tree s = .ok (code, s'))
    (hmem : st ∈ code) (hcurrent : t.current = .filled st) (hactive : t.active = .filled st')
    (hchecked : st'.Checked) (hren : st.Renewed s'.node t.supply.node st')
    (hn : st.counterpart? = some n) :
    ∃ v n' closing before after, t.view tree = .ok v ∧ st'.counterpart? = some n' ∧
      v.Shows tree n n' st'.redex closing before after := by
  obtain ⟨v, n', closing, tree', hview, hn', hv⟩ :=
    h.view_inPlace hlower hmem hcurrent hactive hchecked hren hn
  obtain ⟨focus, rfl, hcases⟩ := hv.built
  obtain ⟨before, after, hshows⟩ := View.ofFragments_shows hv.occurs hv.differ
    hv.checked.mem_nodes_self (n'.span_from closing) hcases
  exact ⟨_, n', closing, before, after, hview, hn', hshows⟩

/-- The program as it is makes a plain view. -/
theorem View.plain_tagTokens (tree : List Stmt) :
    View.Plain ⟨tagTokens (render tree), none, none⟩ tree :=
  ⟨Token.join_tagTokens _, rfl, rfl⟩

/-- The view of a state that has ended shows the program as it is. -/
theorem view_empty (htree : Stmt.AllChecked tree) (hcurrent : t.current = .empty)
    (hactive : t.active = .empty) :
    t.view tree = .ok ⟨tagTokens (render tree), none, none⟩ := by
  have hview : highlight tree t.current (t.active.map .stmt) .empty t.supply =
      .ok (⟨tagTokens (render tree), none, none⟩, t.supply) := by
    rw [hcurrent, hactive]
    exact highlight_plain htree rfl (by simp [Operand.contains])
  have hfocus : Operand.redex (t.active.map .stmt) = .ok .empty := by
    rw [hactive]
    rfl
  exact State.view_eq hfocus hview

/-- The view of a state that stands at a jump or at an undeclaration shows the program as it
is. -/
theorem view_aside (htree : Stmt.AllChecked tree) (hcurrent : t.current = .filled st)
    (hactive : t.active = .filled st) (hid : st.id ∉ Stmt.listIds tree)
    (hst : (∃ id l, st = .jump id l) ∨ ∃ id x, st = .undeclaration id x) :
    t.view tree = .ok ⟨tagTokens (render tree), none, none⟩ := by
  have hr : replacementFor (.filled st) (.filled (.stmt st)) =
      .ok ⟨.stmt st, .filled (.stmt st)⟩ := by
    rcases hst with ⟨id, l, rfl⟩ | ⟨id, x, rfl⟩ <;> rfl
  have hfocus : Operand.redex (t.active.map .stmt) = .ok (.filled (.stmt st)) := by
    rw [hactive]
    rcases hst with ⟨id, l, rfl⟩ | ⟨id, x, rfl⟩ <;> rfl
  have habs : ((tree.map Slot.filled).any fun s =>
      Operand.contains (s.map .stmt) (.filled (.stmt st))) = false := by
    rw [Bool.eq_false_iff, Ne, any_contains]
    exact hid
  have hview : highlight tree t.current (t.active.map .stmt) (.filled (.stmt st)) t.supply =
      .ok (⟨tagTokens (render tree), none, none⟩, t.supply) := by
    rw [hcurrent, hactive]
    exact highlight_plain htree hr habs
  exact State.view_eq hfocus hview

end Run

/-- In every state of a run of a program in which no node occurs twice, the view can be
built.  It is plain at the end, at jumps and at undeclarations.  Elsewhere it shows the
program with what the current statement stands for replaced by what the active one
stands for, and marks what the next step reduces. -/
theorem view_follows {tree code : List Stmt} {s s' : Supply} {t : State} (htree : Source tree s)
    (hlower : lower (tree.map .filled) s = .ok (code, s'))
    (ht : State.Reaches (.init (code.map .filled) s') t) :
    ∃ v, t.view tree = .ok v ∧
      (v.Plain tree ∧ (t.current = .empty ∨ (∃ id l, t.current = .filled (.jump id l)) ∨
          ∃ id x, t.current = .filled (.undeclaration id x)) ∨
        ∃ st st' n n' closing before after, t.current = .filled st ∧ t.active = .filled st' ∧
          st.counterpart? = some n ∧ st'.counterpart? = some n' ∧
          v.Shows tree n n' st'.redex closing before after) := by
  rw [lower_filled] at hlower
  cases htree.position hlower ht with
  | ended _ hcurrent hactive =>
    exact ⟨_, view_empty htree.checked hcurrent hactive,
      .inl ⟨View.plain_tagTokens tree, .inl hcurrent⟩⟩
  | @inPlace st st' n hmem hcurrent hactive hchecked hren hn =>
    obtain ⟨v, n', closing, before, after, hv, hn', hshows⟩ :=
      htree.view_shows hlower hmem hcurrent hactive hchecked hren hn
    exact ⟨v, hv,
      .inr ⟨st, st', n, n', closing, before, after, hcurrent, hactive, hn, hn', hshows⟩⟩
  | aside hmem hcurrent hactive hn haside =>
    obtain ⟨hid, -⟩ := htree.aside_ids hlower hmem haside
    refine ⟨_, view_aside htree.checked hcurrent hactive hid haside,
      .inl ⟨View.plain_tagTokens tree, .inr ?_⟩⟩
    rcases haside with ⟨id, l, rfl⟩ | ⟨id, x, rfl⟩
    · exact .inl ⟨id, l, hcurrent⟩
    · exact .inr ⟨id, x, hcurrent⟩

/-- The program `for (int i = 1; i <= 9; i += i) {}`, whose update is reduced step by
step. -/
def doublingProgram : List Stmt :=
  [.forLoop 1 (.declaration 2 .int ⟨3, "i"⟩ (some (.constant ⟨4, .int 1⟩)))
    (.expression 5 (some (.binary 6 .le (.identifier ⟨7, "i"⟩) (.constant ⟨8, .int 9⟩))))
    (.expression 9 (some (.addAssign 10 ⟨11, "i"⟩ (.identifier ⟨12, "i"⟩))))
    (.block 13 [])]

/-- After five steps the update has become `i += 1`, and the view shows it. -/
theorem view_follows_doublingProgram :
    Source doublingProgram ⟨14, 0⟩ ∧
      ∃ code s' t v, lower (doublingProgram.map .filled) ⟨14, 0⟩ = .ok (code, s') ∧
        State.Reaches (.init (code.map .filled) s') t ∧ t.view doublingProgram = .ok v ∧
        ∃ n n' redex closing before after,
          v.Shows doublingProgram n n' redex closing before after := by
  have hsource : Source doublingProgram ⟨14, 0⟩ := by
    refine ⟨?_, by decide, by decide⟩
    simp [doublingProgram, Identifier.Checked, Datatype.declarable, BinaryOp.known]
  obtain ⟨code, s', hlower, hrun⟩ : ∃ code s',
      lower (doublingProgram.map .filled) ⟨14, 0⟩ = .ok (code, s') ∧
        ((State.init (code.map .filled) s').steps 5).toOption.any
          (fun t => (t.current.get?.bind Stmt.counterpart?).isSome) = true :=
    ⟨_, _, rfl, by decide +kernel⟩
  cases hsteps : (State.init (code.map .filled) s').steps 5 with
  | error err =>
    rw [hsteps] at hrun
    cases hrun
  | ok t =>
    rw [hsteps] at hrun
    obtain ⟨v, hv, ⟨-, hplain⟩ | ⟨st, st', n, n', closing, before, after, -, -, -, -, hshows⟩⟩ :=
      view_follows hsource hlower ⟨5, hsteps⟩
    · rcases hplain with hcur | ⟨id, l, hcur⟩ | ⟨id, x, hcur⟩ <;>
        simp [Except.toOption, hcur, Stmt.counterpart?, Stmt.isSimple] at hrun
    · exact ⟨hsource, code, s', t, v, hlower, ⟨5, hsteps⟩, hv, n, n', _, closing, before, after,
        hshows⟩

end Stepwise
