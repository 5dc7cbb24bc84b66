import Stepwise.Lowering.Basic
import Stepwise.Proofs.Building
import Mathlib.Data.List.Nodup

/-!
# Proofs - The layout of lowered code

Lowering draws labels and identities from a supply.  Once a program is lowered
only two things about them matter: where each label stands, and that no two
labels share an identity.  This module states the layout of lowered code as a
relation without supplies, with the part of a loop that is run again and again
as a phrase of its own.

Main results:

- `Stmt.lower_layout` and `Stmt.lowerAll_layout`: lowered code has the layout of
  what was lowered, and the statements that lowering adds get the identities it
  draws, each one once.
- `Drawn.uniqueLabels`: a label stands at one place of lowered code.
- `Stmt.lowerAll_append`: a program is lowered statement by statement.
-/

namespace Stepwise

/-! ## Parts of a list -/

section StandsAt

variable {α : Type} {whole part : List α} {i : Nat} {x : α}

/-- A list stands at a place of another list. -/
def StandsAt (whole : List α) (i : Nat) (part : List α) : Prop :=
  part <+: whole.drop i

/-- Code stands at the start of itself. -/
theorem standsAt_self (whole : List α) : StandsAt whole 0 whole := List.prefix_rfl

@[simp] theorem standsAt_nil : StandsAt whole i [] := List.nil_prefix

/-- The head of a part stands at its place and the tail at the next one. -/
@[simp] theorem standsAt_cons :
    StandsAt whole i (x :: part) ↔ whole[i]? = some x ∧ StandsAt whole (i + 1) part := by
  rw [StandsAt, StandsAt]
  rcases Nat.lt_or_ge i whole.length with h | h
  · rw [List.drop_eq_getElem_cons h, List.cons_prefix_cons, List.getElem?_eq_getElem h]
    simp [eq_comm]
  · simp [List.drop_eq_nil_of_le h, List.getElem?_eq_none h]

/-- The second of two parts stands where the first one ends. -/
@[simp] theorem standsAt_append {p q : List α} :
    StandsAt whole i (p ++ q) ↔ StandsAt whole i p ∧ StandsAt whole (i + p.length) q := by
  induction p generalizing i with
  | nil => simp
  | cons y p ih => simp [ih, and_assoc, Nat.add_assoc, Nat.add_comm 1]

end StandsAt

/-! ## Layouts -/

/-- What is lowered as a unit: a statement, a list of statements, or the part of
a loop that is run again and again. -/
inductive Phrase where
  | one (s : Stmt)
  | all (ss : List Stmt)
  | loop (cond update body : Stmt)

/-- The labels a flat statement may jump to. -/
def Stmt.targets : Stmt → List Label
  | .jump _ l => [l]
  | .condJump _ _ t f _ => [t, f]
  | _ => []

/-- The undeclarations that end the scopes of names, in their order. -/
inductive Drops : List Identifier → List Stmt → Prop
  | nil : Drops [] []
  | cons {x names drops} (id : NodeId) :
      Drops names drops → Drops (x :: names) (.undeclaration id x :: drops)

/-- The jump at the head of a loop: the loop is entered when its condition holds,
and always when it has none. -/
inductive LoopTest (inner exit : Label) : Stmt → Stmt → Prop
  | absent (id k : NodeId) :
      LoopTest inner exit (.expression id none) (.jump k inner)
  | present (id k : NodeId) (e : Expr) :
      LoopTest inner exit (.expression id (some e))
        (.condJump k e inner exit (.expression id (some e)))

/-- The names a phrase leaves in scope. -/
def Phrase.declared : Phrase → List Identifier
  | .one s => s.declared?.toList
  | .all ss => ss.filterMap Stmt.declared?
  | .loop .. => []

/-- A list declares what its first statement and the others declare. -/
theorem Phrase.declared_cons (s : Stmt) (ss : List Stmt) :
    (Phrase.all (s :: ss)).declared = (Phrase.one s).declared ++ (Phrase.all ss).declared := by
  cases h : s.declared? <;> simp [Phrase.declared, h]

/-- A list of one statement declares what the statement declares. -/
theorem Phrase.declared_singleton (s : Stmt) :
    (Phrase.all [s]).declared = (Phrase.one s).declared := by
  rw [Phrase.declared_cons]
  simp [Phrase.declared]

/-- The layout of lowered code. -/
inductive Phrase.LowersTo : Phrase → List Stmt → Prop
  | nil : LowersTo (.all []) []
  | cons {s ss code more} : LowersTo (.one s) code → LowersTo (.all ss) more →
      LowersTo (.all (s :: ss)) (code ++ more)
  | expression (id : NodeId) (v : Option Expr) :
      LowersTo (.one (.expression id v)) [.expression id v]
  | declaration (id : NodeId) (t : Datatype) (x : Identifier) (v : Option Expr) :
      LowersTo (.one (.declaration id t x v)) [.declaration id t x v]
  | block {ss body drops} (id : NodeId) : LowersTo (.all ss) body →
      Drops (Phrase.all ss).declared drops →
      LowersTo (.one (.block id ss)) (body ++ drops)
  | ifThen {b body} (id k leave skip : NodeId) (c : Expr) (onTrue onFalse exit : Label) :
      LowersTo (.one b) body →
      LowersTo (.one (.ifThen id c b))
        (.condJump k c onTrue onFalse (.ifThen id c b) :: .label onTrue ::
          (body ++ [.jump leave exit, .label onFalse, .jump skip exit, .label exit]))
  | forLoop {i c u b init again drops} (id : NodeId) : LowersTo (.one i) init →
      LowersTo (.loop c u b) again → Drops (Phrase.one i).declared drops →
      LowersTo (.one (.forLoop id i c u b)) (init ++ (again ++ drops))
  | loop {c u b test body update} (back : NodeId) (start inner exit : Label) :
      LoopTest inner exit c test → LowersTo (.one b) body → LowersTo (.one u) update →
      LowersTo (.loop c u b)
        (.label start :: test :: .label inner ::
          (body ++ (update ++ [.jump back start, .label exit])))

/-- A phrase as checked builders produce it. -/
def Phrase.Checked : Phrase → Prop
  | .one s => s.Checked
  | .all ss => Stmt.AllChecked ss
  | .loop c u b => c.Checked ∧ u.Checked ∧ b.Checked

/-- The undeclarations of names of checked declarations are checked. -/
theorem Drops.checked {ss drops : List Stmt} (h : Drops (Phrase.all ss).declared drops)
    (hss : Stmt.AllChecked ss) : Stmt.AllChecked drops := by
  induction ss generalizing drops with
  | nil =>
    cases h
    trivial
  | cons s ss ih =>
    cases hs : s.declared? with
    | none =>
      rw [Phrase.declared, List.filterMap_cons_none hs] at h
      exact ih h hss.2
    | some x =>
      rw [Phrase.declared, List.filterMap_cons_some hs] at h
      cases h with
      | cons id h =>
        refine ⟨?_, ih h hss.2⟩
        cases s <;> simp only [Stmt.declared?, reduceCtorEq, Option.some.injEq] at hs
        exact hs ▸ hss.1.2.1

/-- The code of checked statements is checked. -/
theorem Phrase.LowersTo.checked {p : Phrase} {code : List Stmt} (h : p.LowersTo code)
    (hp : p.Checked) : Stmt.AllChecked code := by
  induction h with
  | nil => trivial
  | cons _ _ ih ih' => exact Stmt.allChecked_append.2 ⟨ih hp.1, ih' hp.2⟩
  | expression | declaration => exact ⟨hp, trivial⟩
  | block id _ hd ih => exact Stmt.allChecked_append.2 ⟨ih hp, hd.checked hp⟩
  | ifThen id k leave skip c t f e _ ih =>
    exact ⟨⟨hp.1, hp⟩, trivial, Stmt.allChecked_append.2
      ⟨ih hp.2, trivial, trivial, trivial, trivial, trivial⟩⟩
  | @forLoop i c u b init again drops id _ _ hd ih ih' =>
    rw [← Phrase.declared_singleton] at hd
    exact Stmt.allChecked_append.2 ⟨ih hp.1,
      Stmt.allChecked_append.2 ⟨ih' hp.2, hd.checked ⟨hp.1, trivial⟩⟩⟩
  | @loop c u b test body update back start inner exit ht _ _ ihb ihu =>
    have htest : test.Checked := by
      cases ht with
      | absent => trivial
      | present id k e => exact ⟨hp.1, hp.1⟩
    exact ⟨trivial, htest, trivial, Stmt.allChecked_append.2 ⟨ihb hp.2.2,
      Stmt.allChecked_append.2 ⟨ihu hp.2.1, trivial, trivial, trivial⟩⟩⟩

/-- The undeclarations of a list of statements are those of the names it
declares. -/
theorem undeclarations_drops {ss drops : List Stmt} {s s' : Supply}
    (h : undeclarations ss s = .ok (drops, s')) : Drops (Phrase.all ss).declared drops := by
  induction ss generalizing s drops with
  | nil =>
    cases h
    exact .nil
  | cons st ss ih =>
    cases hst : st.declared? with
    | none =>
      simp only [undeclarations, hst] at h
      rw [Phrase.declared, List.filterMap_cons_none hst]
      exact ih h
    | some x =>
      simp only [undeclarations, hst, Build.bind_eq_ok_iff, Build.undeclaration_apply] at h
      obtain ⟨u, s₁, hu, us, s₂, hus, h⟩ := h
      cases hu
      cases h
      rw [Phrase.declared, List.filterMap_cons_some hst]
      exact .cons s.node (ih hus)

/-- Every name can be undeclared. -/
theorem exists_undeclarations (ss : List Stmt) (s : Supply) :
    ∃ drops s', undeclarations ss s = .ok (drops, s') := by
  induction ss generalizing s with
  | nil => exact ⟨[], s, rfl⟩
  | cons st ss ih =>
    cases hst : st.declared? with
    | none =>
      simp only [undeclarations, hst]
      exact ih s
    | some x =>
      obtain ⟨us, s', hus⟩ := ih s.next
      refine ⟨.undeclaration s.node x :: us, s', ?_⟩
      simp only [undeclarations, hst, Build.bind_apply, Build.undeclaration_apply, hus,
        Build.pure_apply]

/-- A computation that passes its result on succeeds when both parts do. -/
theorem bind_eq_ok_iff {ε α β : Type} {x : Except ε α} {f : α → Except ε β} {b : β} :
    (x >>= f) = .ok b ↔ ∃ a, x = .ok a ∧ f a = .ok b := by
  cases x <;> simp [bind, Except.bind]

/-- The jump at the head of a loop gets the next identity. -/
theorem lowerCondition_loopTest {c test : Stmt} {inner exit : Label} {s s' : Supply}
    (h : lowerCondition c inner exit s = .ok (test, s')) :
    LoopTest inner exit c test ∧ test.id = s.node ∧ s' = s.next := by
  unfold lowerCondition at h
  split at h
  · obtain ⟨rfl, rfl⟩ := Build.condJump_eq_ok h
    exact ⟨.present .., rfl, rfl⟩
  · cases h
    exact ⟨.absent .., rfl, rfl⟩
  · cases h

/-- The parts of a lowered conditional, and the identities that each of them starts from. -/
theorem Stmt.lower_ifThen {id : NodeId} {c : Expr} {b : Stmt} {s s' : Supply} {code : List Stmt}
    (h : (Stmt.ifThen id c b).lower s = .ok (code, s')) :
    ∃ onTrue onFalse exit s₁ s₂ s₃ body s₄, newLabel "true" s = (onTrue, s₁) ∧
      newLabel "false" s₁ = (onFalse, s₂) ∧ newLabel "end" s₂ = (exit, s₃) ∧
      b.lower s₃.next = .ok (body, s₄) ∧
      code = .condJump s₃.node c onTrue onFalse (.ifThen id c b) :: .label onTrue ::
        (body ++ [.jump s₄.node exit, .label onFalse, .jump s₄.next.node exit, .label exit]) ∧
      s' = s₄.next.next := by
  simp only [Stmt.lower, Build.bind_eq_ok_iff, Build.modifyGet_apply, Except.ok.injEq] at h
  obtain ⟨onTrue, s₁, h₁, onFalse, s₂, h₂, exit, s₃, h₃, test, s', htest, body, s₄, hb, h⟩ := h
  obtain ⟨rfl, rfl⟩ := Build.condJump_eq_ok htest
  obtain ⟨leave, s₅, hleave, skip, s₆, hskip, h⟩ := h
  cases hleave
  cases hskip
  cases h
  exact ⟨onTrue, onFalse, exit, s₁, s₂, s₃, body, s₄, h₁, h₂, h₃, hb, rfl, rfl⟩

/-- The parts of a lowered loop, and the identities that each of them starts from. -/
theorem Stmt.lower_forLoop {id : NodeId} {i c u b : Stmt} {s s' : Supply} {code : List Stmt}
    (h : (Stmt.forLoop id i c u b).lower s = .ok (code, s')) :
    ∃ start inner exit s₁ s₂ s₃ init s₄ test s₅ body s₆ update s₇ drops,
      newLabel "begin" s = (start, s₁) ∧ newLabel "body" s₁ = (inner, s₂) ∧
      newLabel "end" s₂ = (exit, s₃) ∧ i.lower s₃ = .ok (init, s₄) ∧
      lowerCondition c inner exit s₄ = .ok (test, s₅) ∧ b.lower s₅ = .ok (body, s₆) ∧
      u.lower s₆ = .ok (update, s₇) ∧ undeclarations [i] s₇.next = .ok (drops, s') ∧
      code = init ++ .label start :: test :: .label inner ::
        (body ++ (update ++ .jump s₇.node start :: .label exit :: drops)) := by
  simp only [Stmt.lower, Build.bind_eq_ok_iff, Build.modifyGet_apply, Except.ok.injEq] at h
  obtain ⟨start, s₁, h₁, inner, s₂, h₂, exit, s₃, h₃, init, s₄, hi, test, s₅, hc, h⟩ := h
  obtain ⟨body, s₆, hb, update, s₇, hu, again, s₈, hagain, drops, s₉, hdrops, h⟩ := h
  cases hagain
  cases h
  exact ⟨start, inner, exit, s₁, s₂, s₃, init, s₄, test, s₅, body, s₆, update, s₇, drops, h₁, h₂,
    h₃, hi, hc, hb, hu, hdrops, rfl⟩

/-! ## Drawn identities -/

/-- The identities of the statements that do not come from a program. -/
def addedIds (code : List Stmt) : List NodeId :=
  (code.filter fun st => !st.isSource).map Stmt.id

@[simp] theorem addedIds_nil : addedIds [] = [] := rfl

@[simp] theorem addedIds_append (code more : List Stmt) :
    addedIds (code ++ more) = addedIds code ++ addedIds more := by
  simp [addedIds]

/-- A statement adds its identity if it is no source statement. -/
theorem addedIds_cons (st : Stmt) (code : List Stmt) :
    addedIds (st :: code) = (if st.isSource then [] else [st.id]) ++ addedIds code := by
  cases h : st.isSource <;> simp [addedIds, h]

/-- A statement that is no source statement has added its identity. -/
theorem mem_addedIds {code : List Stmt} {st : Stmt} (h : st ∈ code) (hs : st.isSource = false) :
    st.id ∈ addedIds code :=
  List.mem_map_of_mem (by simp [h, hs])

/-- Every identity from `a` up to `b` is that of one statement of the code that is
not from a program, and of no other one. -/
structure Drawn (a : Nat) (code : List Stmt) (b : Nat) : Prop where
  le : a ≤ b
  ids : (addedIds code).Perm (List.range' a (b - a))

namespace Drawn

variable {a b c : Nat} {code more : List Stmt} {st : Stmt}

theorem nil (a : Nat) : Drawn a [] a :=
  ⟨Nat.le_refl a, by simp⟩

theorem source (h : st.isSource = true) (a : Nat) : Drawn a [st] a :=
  ⟨Nat.le_refl a, by simp [addedIds, h]⟩

/-- A statement with the next identity. -/
theorem fresh (h : st.isSource = false) (ha : st.id = a) (hb : b = a + 1) : Drawn a [st] b :=
  ⟨by omega, by simp [addedIds, h, ha, hb]⟩

/-- Code in turn draws identities in turn. -/
theorem append (h : Drawn a code b) (h' : Drawn b more c) : Drawn a (code ++ more) c := by
  have hle := h.le
  have hle' := h'.le
  have hb : a + (b - a) = b := by omega
  have hlen : c - a = (b - a) + (c - b) := by omega
  refine ⟨by omega, ?_⟩
  rw [addedIds_append, hlen, ← List.range'_append_1, hb]
  exact h.ids.append h'.ids

/-- The order of the statements does not matter. -/
theorem reorder (h : Drawn a code b)
    (hp : ∀ k, (addedIds more).count k = (addedIds code).count k) : Drawn a more b :=
  ⟨h.le, (List.perm_iff_count.2 hp).trans h.ids⟩

/-- No added identity is drawn twice. -/
theorem nodup (h : Drawn a code b) : (addedIds code).Nodup :=
  h.ids.nodup_iff.2 List.nodup_range'

/-- An added identity lies between the supplies. -/
theorem id_mem (h : Drawn a code b) (hst : st ∈ code) (hs : st.isSource = false) :
    a ≤ st.id ∧ st.id < b := by
  have hle := h.le
  have hmem := h.ids.mem_iff.1 (mem_addedIds hst hs)
  rw [List.mem_range'_1, Nat.add_sub_cancel' hle] at hmem
  exact hmem

end Drawn

/-- A new label draws its identity. -/
theorem newLabel_drawn {stem : String} {s s' : Supply} {l : Label}
    (h : newLabel stem s = (l, s')) : Drawn s.node [.label l] s'.node := by
  cases h
  exact .fresh rfl rfl rfl

/-- A jump draws its identity. -/
theorem jump_drawn (l : Label) (s : Supply) : Drawn s.node [.jump s.node l] s.next.node :=
  .fresh rfl rfl rfl

/-- Undeclarations draw one identity each. -/
theorem undeclarations_drawn {ss drops : List Stmt} {s s' : Supply}
    (h : undeclarations ss s = .ok (drops, s')) : Drawn s.node drops s'.node := by
  induction ss generalizing s drops with
  | nil =>
    cases h
    exact .nil _
  | cons st ss ih =>
    cases hst : st.declared? with
    | none =>
      simp only [undeclarations, hst] at h
      exact ih h
    | some x =>
      simp only [undeclarations, hst, Build.bind_eq_ok_iff, Build.undeclaration_apply] at h
      obtain ⟨u, s₁, hu, us, s₂, hus, h⟩ := h
      cases hu
      cases h
      have hx : Drawn s.node [.undeclaration s.node x] s.next.node := .fresh rfl rfl rfl
      exact hx.append (ih hus)

/-- Lowering a condition draws the identity of the test. -/
theorem lowerCondition_drawn {c test : Stmt} {inner exit : Label} {s s' : Supply}
    (h : lowerCondition c inner exit s = .ok (test, s')) : Drawn s.node [test] s'.node := by
  obtain ⟨htest, hid, rfl⟩ := lowerCondition_loopTest h
  cases htest <;> exact .fresh rfl hid rfl

/-! ## Lowering has the layout -/

mutual

/-- Lowered code has the layout of its statement and uses every identity drawn. -/
theorem Stmt.lower_layout {st : Stmt} {s s' : Supply} {code : List Stmt}
    (h : st.lower s = .ok (code, s')) :
    (Phrase.one st).LowersTo code ∧ Drawn s.node code s'.node := by
  cases st with
  | expression id v =>
    cases h
    exact ⟨.expression id v, .source rfl s.node⟩
  | declaration id t x v =>
    cases h
    exact ⟨.declaration id t x v, .source rfl s.node⟩
  | block id ss =>
    simp only [Stmt.lower, Build.bind_eq_ok_iff] at h
    obtain ⟨body, s₁, hss, drops, s₂, hdrops, h⟩ := h
    cases h
    obtain ⟨hl, hd⟩ := Stmt.lowerAll_layout hss
    exact ⟨.block id hl (undeclarations_drops hdrops), hd.append (undeclarations_drawn hdrops)⟩
  | ifThen id c b =>
    obtain ⟨onTrue, onFalse, exit, s₁, s₂, s₃, body, s₄, h₁, h₂, h₃, hb, rfl, rfl⟩ :=
      Stmt.lower_ifThen h
    obtain ⟨hl, hd⟩ := Stmt.lower_layout hb
    refine ⟨.ifThen id _ _ _ c _ _ _ hl, ?_⟩
    have labels := ((newLabel_drawn h₁).append (newLabel_drawn h₂)).append (newLabel_drawn h₃)
    have test : Drawn s₃.node [.condJump s₃.node c onTrue onFalse (.ifThen id c b)] s₃.next.node :=
      .fresh rfl rfl rfl
    have jumps := (jump_drawn exit s₄).append (jump_drawn exit s₄.next)
    refine (((labels.append test).append hd).append jumps).reorder fun k => ?_
    simp [addedIds_cons, List.count_cons, List.count_append, Stmt.isSource, Stmt.id]
    omega
  | forLoop id i c u b =>
    obtain ⟨start, inner, exit, s₁, s₂, s₃, init, s₄, test, s₅, body, s₆, update, s₇, drops, h₁,
      h₂, h₃, hi, hc, hb, hu, hdrops, rfl⟩ := Stmt.lower_forLoop h
    obtain ⟨hli, hdi⟩ := Stmt.lower_layout hi
    obtain ⟨hlb, hdb⟩ := Stmt.lower_layout hb
    obtain ⟨hlu, hdu⟩ := Stmt.lower_layout hu
    have hll := Phrase.LowersTo.loop s₇.node start inner exit (lowerCondition_loopTest hc).1 hlb hlu
    have labels := ((newLabel_drawn h₁).append (newLabel_drawn h₂)).append (newLabel_drawn h₃)
    have parts := (((labels.append hdi).append (lowerCondition_drawn hc)).append hdb).append hdu
    have back := (jump_drawn start s₇).append (undeclarations_drawn hdrops)
    refine ⟨?_, (parts.append back).reorder fun k => ?_⟩
    · have hdrops := undeclarations_drops hdrops
      rw [Phrase.declared_singleton] at hdrops
      simpa using Phrase.LowersTo.forLoop id hli hll hdrops
    · simp [addedIds_cons, List.count_cons, List.count_append, Stmt.isSource, Stmt.id]
      omega
  | label l => cases h
  | jump id l => cases h
  | condJump id c t f o => cases h
  | undeclaration id x => cases h

/-- What lowering a list gives is laid out as the list says, with identities drawn in turn. -/
theorem Stmt.lowerAll_layout {ss : List Stmt} {s s' : Supply} {code : List Stmt}
    (h : Stmt.lowerAll ss s = .ok (code, s')) :
    (Phrase.all ss).LowersTo code ∧ Drawn s.node code s'.node := by
  cases ss with
  | nil =>
    cases h
    exact ⟨.nil, .nil s.node⟩
  | cons st ss =>
    simp only [Stmt.lowerAll, Build.bind_eq_ok_iff] at h
    obtain ⟨first, s₁, hst, more, s₂, hss, h⟩ := h
    cases h
    obtain ⟨hl, hd⟩ := Stmt.lower_layout hst
    obtain ⟨hl', hd'⟩ := Stmt.lowerAll_layout hss
    exact ⟨.cons hl hl', hd.append hd'⟩

end

/-! ## Labels -/

/-- No two places of the code hold labels of one identity. -/
def UniqueLabels (code : List Stmt) : Prop :=
  ∀ ⦃i j : Nat⦄ ⦃l l' : Label⦄, code[i]? = some (.label l) → code[j]? = some (.label l') →
    l.id = l'.id → i = j

/-- No label occurs twice in drawn code. -/
theorem Drawn.uniqueLabels {a b : Nat} {code : List Stmt} (h : Drawn a code b) :
    UniqueLabels code := by
  have hpair := h.nodup
  rw [addedIds, List.Nodup, List.pairwise_map, List.pairwise_filter,
    List.pairwise_iff_getElem] at hpair
  have hne : ∀ {i j : Nat} {l l' : Label}, code[i]? = some (.label l) →
      code[j]? = some (.label l') → i < j → l.id ≠ l'.id := by
    intro i j l l' hi hj hlt
    obtain ⟨hi', hi⟩ := List.getElem?_eq_some_iff.1 hi
    obtain ⟨hj', hj⟩ := List.getElem?_eq_some_iff.1 hj
    have := hpair i j hi' hj' hlt
    rw [hi, hj] at this
    exact this rfl rfl
  intro i j l l' hi hj hid
  rcases Nat.lt_trichotomy i j with hlt | heq | hgt
  · exact absurd hid (hne hi hj hlt)
  · exact heq
  · exact absurd hid.symm (hne hj hi hgt)

/-! ## Programs -/

/-- A program without empty places is lowered as a list of statements. -/
@[simp] theorem lower_filled (ss : List Stmt) (s : Supply) :
    lower (ss.map .filled) s = Stmt.lowerAll ss s := by
  induction ss generalizing s with
  | nil => rfl
  | cons st ss ih =>
    simp only [List.map_cons, lower, Slot.lower, ih, Stmt.lowerAll, Build.bind_apply]

/-- The code of a list of statements is that of its first statements, followed by
that of the others. -/
theorem Stmt.lowerAll_append {ss more code : List Stmt} {s s' : Supply}
    (h : Stmt.lowerAll (ss ++ more) s = .ok (code, s')) :
    ∃ front s₁ back, Stmt.lowerAll ss s = .ok (front, s₁) ∧
      Stmt.lowerAll more s₁ = .ok (back, s') ∧ code = front ++ back := by
  induction ss generalizing s code with
  | nil => exact ⟨[], s, code, rfl, h, rfl⟩
  | cons st ss ih =>
    simp only [List.cons_append, Stmt.lowerAll, Build.bind_eq_ok_iff] at h ⊢
    obtain ⟨first, s₁, hst, rest, s₂, hss, h⟩ := h
    cases h
    obtain ⟨front, s₃, back, hfront, hback, rfl⟩ := ih hss
    refine ⟨first ++ front, s₃, back, ⟨first, s₁, hst, front, s₃, hfront, rfl⟩, hback, ?_⟩
    rw [List.append_assoc]

end Stepwise
