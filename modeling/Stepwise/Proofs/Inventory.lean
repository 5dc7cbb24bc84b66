import Stepwise.Proofs.Occurrence
import Stepwise.Proofs.Scope

/-!
# Proofs - What lowered code consists of

Lowered code is made of simple statements of the program, kept as the same nodes, and of
labels, jumps and undeclarations that lowering adds.  The simple statements come in the
order in which they are written, but for the update of a loop, which comes after its
body.  A label is named by a word and a number, and every number is given out once, so
no name is ever used again.

Main definitions:

- `Label.number`, the number in the name of a label.
- `Stmt.leaves`, the simple statements of a statement in the order of their code.
- `Inventory`, all that lowered code consists of.

Main results:

- `Stmt.lowerAll_numbered`: the labels of lowered code have the numbers that were drawn,
  each one once.
- `Phrase.LowersTo.targets`: jumps lead to labels of the same code.
- `Phrase.LowersTo.leaves`, `Phrase.LowersTo.tests` and `Phrase.LowersTo.undeclared`: where
  the other statements come from.
- `lowered_inventory`: what the code of a program consists of.
-/

namespace Stepwise

/-! ## Numbered labels -/

/-- The label a statement is, if it is one. -/
def Stmt.label? : Stmt → Option Label
  | .label l => some l
  | _ => none

/-- The labels of code, in order. -/
def labelsOf (code : List Stmt) : List Label :=
  code.filterMap Stmt.label?

/-- The number in the name of a label: its digits. -/
def Label.number (l : Label) : Nat :=
  Nat.ofDigitChars 10 (l.name.toList.filter Char.isDigit) 0

/-- A word that a label can be named by: it has no digits. -/
def Wordlike (stem : String) : Prop :=
  ∀ c ∈ stem.toList, c.isDigit = false

/-- The number of a new label is the next one. -/
theorem newLabel_number {stem : String} (hstem : Wordlike stem) (s : Supply) :
    (newLabel stem s).1.number = s.labels + 1 := by
  have hword : stem.toList.filter Char.isDigit = [] :=
    List.filter_eq_nil_iff.2 fun c hc => by simp [hstem c hc]
  have hdigits : (Nat.toDigits 10 (s.labels + 1)).filter Char.isDigit =
      Nat.toDigits 10 (s.labels + 1) :=
    List.filter_eq_self.2 fun c hc => Nat.isDigit_of_mem_toDigits (by decide) (by decide) hc
  simp only [newLabel, Label.number, String.toList_append, List.filter_append, hword,
    Nat.toString_eq_ofList_toDigits, String.toList_ofList, hdigits, List.nil_append,
    Nat.ofDigitChars_ten_toDigits]

/-- The labels have the numbers after `a` up to `b`, each number once. -/
structure Numbered (a : Nat) (labels : List Label) (b : Nat) : Prop where
  le : a ≤ b
  numbers : (labels.map Label.number).Perm (List.range' (a + 1) (b - a))

namespace Numbered

variable {a b c : Nat} {labels more : List Label} {l : Label}

theorem nil (a : Nat) : Numbered a [] a :=
  ⟨Nat.le_refl a, by simp⟩

/-- A new label takes the next number. -/
theorem newLabel {stem : String} {s s' : Supply} (hstem : Wordlike stem)
    (h : Stepwise.newLabel stem s = (l, s')) : Numbered s.labels [l] s'.labels := by
  have hnumber := newLabel_number hstem s
  rw [h] at hnumber
  have hs : s'.labels = s.labels + 1 := congrArg (·.2.labels) h.symm
  exact ⟨by omega, by simp [hnumber, hs]⟩

/-- Labels in turn take the numbers in turn. -/
theorem append (h : Numbered a labels b) (h' : Numbered b more c) :
    Numbered a (labels ++ more) c := by
  have hle := h.le
  have hle' := h'.le
  have hb : a + 1 + (b - a) = b + 1 := by omega
  have hlen : c - a = (b - a) + (c - b) := by omega
  refine ⟨by omega, ?_⟩
  rw [List.map_append, hlen, ← List.range'_append_1, hb]
  exact h.numbers.append h'.numbers

/-- Three labels that are drawn one after the other. -/
theorem three {p q r : String} {s s₁ s₂ s₃ : Supply} {l₁ l₂ l₃ : Label}
    (hstems : Wordlike p ∧ Wordlike q ∧ Wordlike r) (h₁ : Stepwise.newLabel p s = (l₁, s₁))
    (h₂ : Stepwise.newLabel q s₁ = (l₂, s₂)) (h₃ : Stepwise.newLabel r s₂ = (l₃, s₃)) :
    Numbered s.labels [l₁, l₂, l₃] s₃.labels :=
  ((newLabel hstems.1 h₁).append (newLabel hstems.2.1 h₂)).append (newLabel hstems.2.2 h₃)

/-- The order of the labels does not matter. -/
theorem reorder (h : Numbered a labels b) (hp : more.Perm labels) : Numbered a more b :=
  ⟨h.le, (hp.map _).trans h.numbers⟩

/-- The numbers of labels lie in their range. -/
theorem number_mem (h : Numbered a labels b) (hl : l ∈ labels) : a < l.number ∧ l.number ≤ b := by
  have hle := h.le
  have hmem := h.numbers.mem_iff.1 (List.mem_map_of_mem hl)
  rw [List.mem_range'_1] at hmem
  omega

/-- No two of the labels have the same name. -/
theorem nodup_names (h : Numbered a labels b) : (labels.map Label.name).Nodup := by
  have hnumbers : (labels.map Label.number).Nodup := h.numbers.nodup_iff.2 List.nodup_range'
  rw [List.Nodup, List.pairwise_map] at hnumbers ⊢
  refine hnumbers.imp fun hne hname => hne ?_
  rw [Label.number, Label.number, hname]

/-- A label whose number was given out before has another name. -/
theorem name_not_mem (h : Numbered a labels b) (hl : l.number ≤ a) :
    l.name ∉ labels.map Label.name := by
  intro hmem
  obtain ⟨l', hl', hname⟩ := List.mem_map.1 hmem
  have hnumber : l'.number = l.number := by rw [Label.number, Label.number, hname]
  have := h.number_mem hl'
  omega

end Numbered

@[simp] theorem labelsOf_nil : labelsOf [] = [] := rfl

@[simp] theorem labelsOf_append (code more : List Stmt) :
    labelsOf (code ++ more) = labelsOf code ++ labelsOf more :=
  List.filterMap_append

@[simp] theorem labelsOf_label (l : Label) (code : List Stmt) :
    labelsOf (.label l :: code) = l :: labelsOf code := rfl

@[simp] theorem labelsOf_jump (id : NodeId) (l : Label) (code : List Stmt) :
    labelsOf (.jump id l :: code) = labelsOf code := rfl

@[simp] theorem labelsOf_condJump (id : NodeId) (c : Expr) (t f : Label) (o : Stmt)
    (code : List Stmt) : labelsOf (.condJump id c t f o :: code) = labelsOf code := rfl

/-- A statement that is no label adds none. -/
theorem labelsOf_cons_of_none {st : Stmt} (h : st.label? = none) (code : List Stmt) :
    labelsOf (st :: code) = labelsOf code :=
  List.filterMap_cons_none h

/-- The labels of code are its label statements. -/
theorem mem_labelsOf {l : Label} {code : List Stmt} : l ∈ labelsOf code ↔ .label l ∈ code := by
  rw [labelsOf, List.mem_filterMap]
  constructor
  · rintro ⟨st, hst, hl⟩
    cases st <;> cases hl
    exact hst
  · intro h
    exact ⟨.label l, h, rfl⟩

/-- Undeclarations hold no labels and draw no numbers. -/
theorem undeclarations_labels {ss drops : List Stmt} {s s' : Supply}
    (h : undeclarations ss s = .ok (drops, s')) : labelsOf drops = [] ∧ s'.labels = s.labels := by
  induction ss generalizing s drops with
  | nil =>
    cases h
    exact ⟨rfl, rfl⟩
  | cons st ss ih =>
    cases hst : st.declared? with
    | none =>
      simp only [undeclarations, hst] at h
      exact ih h
    | some x =>
      simp only [undeclarations, hst, Build.bind_eq_ok_iff, Build.undeclaration_apply] at h
      obtain ⟨u, s₁, hu, us, s₂, hus, h⟩ := h
      cases hu
      cases h
      obtain ⟨hlabels, hs⟩ := ih hus
      exact ⟨hlabels, hs⟩

/-- Lowering a condition makes no labels. -/
theorem lowerCondition_labels {c test : Stmt} {inner exit : Label} {s s' : Supply}
    (h : lowerCondition c inner exit s = .ok (test, s')) :
    test.label? = none ∧ s'.labels = s.labels := by
  obtain ⟨htest, -, rfl⟩ := lowerCondition_loopTest h
  cases htest <;> exact ⟨rfl, rfl⟩

mutual

/-- The labels of lowered code have the numbers that lowering draws. -/
theorem Stmt.lower_numbered {st : Stmt} {s s' : Supply} {code : List Stmt}
    (h : st.lower s = .ok (code, s')) : Numbered s.labels (labelsOf code) s'.labels := by
  cases st with
  | expression id v | declaration id t x v =>
    cases h
    exact .nil _
  | block id ss =>
    simp only [Stmt.lower, Build.bind_eq_ok_iff] at h
    obtain ⟨body, s₁, hss, drops, s₂, hdrops, h⟩ := h
    cases h
    obtain ⟨hlabels, hs⟩ := undeclarations_labels hdrops
    rw [labelsOf_append, hlabels, hs, List.append_nil]
    exact Stmt.lowerAll_numbered hss
  | ifThen id c b =>
    obtain ⟨onTrue, onFalse, exit, s₁, s₂, s₃, body, s₄, h₁, h₂, h₃, hb, rfl, rfl⟩ :=
      Stmt.lower_ifThen h
    have heads := Numbered.three (by simp [Wordlike]) h₁ h₂ h₃
    have hbody := Stmt.lower_numbered hb
    rw [Supply.labels_next] at hbody
    refine (heads.append hbody).reorder (List.perm_iff_count.2 fun k => ?_)
    simp [List.count_cons, List.count_append]
    omega
  | forLoop id i c u b =>
    obtain ⟨start, inner, exit, s₁, s₂, s₃, init, s₄, test, s₅, body, s₆, update, s₇, drops, h₁,
      h₂, h₃, hi, hc, hb, hu, hdrops, rfl⟩ := Stmt.lower_forLoop h
    obtain ⟨htest, hs₅⟩ := lowerCondition_labels hc
    obtain ⟨hlabels, hs⟩ := undeclarations_labels hdrops
    rw [hs]
    have heads := Numbered.three (by simp [Wordlike]) h₁ h₂ h₃
    have hbody := Stmt.lower_numbered hb
    rw [hs₅] at hbody
    have parts := ((heads.append (Stmt.lower_numbered hi)).append hbody).append
      (Stmt.lower_numbered hu)
    refine parts.reorder (List.perm_iff_count.2 fun k => ?_)
    simp [labelsOf_cons_of_none htest, hlabels, List.count_cons, List.count_append]
    omega
  | label l => cases h
  | jump id l => cases h
  | condJump id c t f o => cases h
  | undeclaration id x => cases h

/-- Lowering a list of statements numbers its labels in turn. -/
theorem Stmt.lowerAll_numbered {ss : List Stmt} {s s' : Supply} {code : List Stmt}
    (h : Stmt.lowerAll ss s = .ok (code, s')) : Numbered s.labels (labelsOf code) s'.labels := by
  cases ss with
  | nil =>
    cases h
    exact .nil _
  | cons st ss =>
    simp only [Stmt.lowerAll, Build.bind_eq_ok_iff] at h
    obtain ⟨first, s₁, hst, more, s₂, hss, h⟩ := h
    cases h
    rw [labelsOf_append]
    exact (Stmt.lower_numbered hst).append (Stmt.lowerAll_numbered hss)

end

/-! ## Jumps -/

/-- Undeclarations jump nowhere. -/
theorem Drops.targets {names : List Identifier} {drops : List Stmt} (h : Drops names drops) :
    drops.flatMap Stmt.targets = [] := by
  rw [List.flatMap_eq_nil_iff]
  intro st hst
  obtain ⟨id, x, -, rfl⟩ := h.exists_name hst
  rfl

/-- Jumps lead to labels of the same code. -/
theorem Phrase.LowersTo.targets {p : Phrase} {code : List Stmt} (h : p.LowersTo code) :
    code.flatMap Stmt.targets ⊆ labelsOf code := by
  induction h with
  | nil => simp
  | cons _ _ ih ih' =>
    intro l hl
    rw [List.flatMap_append, List.mem_append] at hl
    rw [labelsOf_append, List.mem_append]
    exact hl.imp (fun h => ih h) (fun h => ih' h)
  | expression | declaration => simp [Stmt.targets]
  | block id _ hd ih =>
    intro l hl
    rw [List.flatMap_append, hd.targets, List.append_nil] at hl
    rw [labelsOf_append]
    exact List.mem_append_left _ (ih hl)
  | ifThen id k leave skip c onTrue onFalse exit _ ih =>
    intro l hl
    have hbody := @ih l
    simp only [List.flatMap_cons, List.flatMap_append, Stmt.targets, List.flatMap_nil,
      List.mem_append, List.mem_cons, List.not_mem_nil, labelsOf_condJump, labelsOf_label,
      labelsOf_append, labelsOf_jump, labelsOf_nil] at hl ⊢
    grind
  | forLoop id _ _ hd ih ih' =>
    intro l hl
    rw [List.flatMap_append, List.flatMap_append, hd.targets, List.append_nil,
      List.mem_append] at hl
    rw [labelsOf_append, labelsOf_append, List.mem_append, List.mem_append]
    exact hl.imp (fun h => ih h) (fun h => .inl (ih' h))
  | loop back start inner exit ht _ _ ihb ihu =>
    intro l hl
    have hbody := @ihb l
    have hupdate := @ihu l
    cases ht <;>
      simp only [List.flatMap_cons, List.flatMap_append, Stmt.targets, List.flatMap_nil,
        List.mem_append, List.mem_cons, List.not_mem_nil, labelsOf_condJump, labelsOf_label,
        labelsOf_append, labelsOf_jump, labelsOf_nil] at hl ⊢ <;>
      grind

/-! ## Simple statements -/

mutual

/-- The simple statements of a statement, in the order of their code: a loop gives those of
its start, of its body and of its update, and none for its condition. -/
def Stmt.leaves : Stmt → List Stmt
  | .expression id v => [.expression id v]
  | .declaration id t x v => [.declaration id t x v]
  | .block _ ss => Stmt.listLeaves ss
  | .ifThen _ _ b => b.leaves
  | .forLoop _ i _ u b => i.leaves ++ (b.leaves ++ u.leaves)
  | _ => []

/-- The simple statements of a list of statements. -/
def Stmt.listLeaves : List Stmt → List Stmt
  | [] => []
  | s :: ss => s.leaves ++ Stmt.listLeaves ss

end

/-- The simple statements of a phrase. -/
def Phrase.leaves : Phrase → List Stmt
  | .one s => s.leaves
  | .all ss => Stmt.listLeaves ss
  | .loop _ u b => b.leaves ++ u.leaves

/-- Undeclarations are not simple statements. -/
theorem Drops.filter_isSimple {names : List Identifier} {drops : List Stmt}
    (h : Drops names drops) : drops.filter Stmt.isSimple = [] := by
  induction h with
  | nil => rfl
  | cons id h ih => simpa [Stmt.isSimple] using ih

/-- The simple statements of code are those of what was lowered, in order. -/
theorem Phrase.LowersTo.leaves {p : Phrase} {code : List Stmt} (h : p.LowersTo code) :
    code.filter Stmt.isSimple = p.leaves := by
  induction h with
  | nil => rfl
  | cons _ _ ih ih' =>
    rw [List.filter_append, ih, ih']
    rfl
  | expression | declaration => rfl
  | block id _ hd ih =>
    rw [List.filter_append, ih, hd.filter_isSimple, List.append_nil]
    rfl
  | ifThen id k leave skip c onTrue onFalse exit _ ih =>
    simp [Stmt.isSimple, ih, Phrase.leaves, Stmt.leaves]
  | forLoop id _ _ hd ih ih' =>
    rw [List.filter_append, List.filter_append, ih, ih', hd.filter_isSimple, List.append_nil]
    rfl
  | loop back start inner exit ht _ _ ihb ihu =>
    cases ht <;> simp [Stmt.isSimple, ihb, ihu, Phrase.leaves]

/-! ## Conditional jumps -/

/-- A conditional jump on `c` with the origin `o` tests a condition of the nodes: `o` is a
conditional statement with the condition `c`, or the condition of a loop, and holds `c`. -/
def TestsIn (nodes : List Node) (c : Expr) (o : Stmt) : Prop :=
  (∃ id b, o = .ifThen id c b ∧ .stmt o ∈ nodes) ∨
    ∃ id loop i u b, o = .expression id (some c) ∧ .stmt (.forLoop loop i o u b) ∈ nodes

/-- A test in some nodes is a test in more of them. -/
theorem TestsIn.mono {nodes more : List Node} {c : Expr} {o : Stmt} (h : TestsIn nodes c o)
    (hsub : nodes ⊆ more) : TestsIn more c o := by
  rcases h with ⟨id, b, rfl, hmem⟩ | ⟨id, loop, i, u, b, rfl, hmem⟩
  · exact .inl ⟨id, b, rfl, hsub hmem⟩
  · exact .inr ⟨id, loop, i, u, b, rfl, hsub hmem⟩

/-- A conditional jump on `c` with the origin `o` tests a condition of a phrase.  For the part of
a loop that is run again and again that may be the condition of the loop itself. -/
def Phrase.Tests (p : Phrase) (c : Expr) (o : Stmt) : Prop :=
  TestsIn p.nodes c o ∨ ∃ id u b, p = .loop o u b ∧ o = .expression id (some c)

/-- A test of a statement is one of any nodes that hold those of the statement. -/
theorem Phrase.Tests.one {st : Stmt} {nodes : List Node} {c : Expr} {o : Stmt}
    (h : (Phrase.one st).Tests c o) (hsub : st.nodes ⊆ nodes) : TestsIn nodes c o := by
  rcases h with h | ⟨id, u, b, hp, -⟩
  · exact h.mono hsub
  · cases hp

theorem Phrase.Tests.all {ss : List Stmt} {nodes : List Node} {c : Expr} {o : Stmt}
    (h : (Phrase.all ss).Tests c o) (hsub : Stmt.listNodes ss ⊆ nodes) : TestsIn nodes c o := by
  rcases h with h | ⟨id, u, b, hp, -⟩
  · exact h.mono hsub
  · cases hp

/-- A conditional jump tests a condition of what was lowered. -/
theorem Phrase.LowersTo.tests {p : Phrase} {code : List Stmt} (h : p.LowersTo code)
    {id : NodeId} {c : Expr} {t f : Label} {o : Stmt} (hst : .condJump id c t f o ∈ code) :
    p.Tests c o := by
  have hdrops : ∀ {names : List Identifier} {drops : List Stmt}, Drops names drops →
      Stmt.condJump id c t f o ∉ drops := by
    intro names drops hd hmem
    obtain ⟨k, x, -, heq⟩ := hd.exists_name hmem
    cases heq
  induction h with
  | nil => cases hst
  | cons _ _ ih ih' =>
    rcases List.mem_append.1 hst with hst | hst
    · exact .inl ((ih hst).one (List.subset_append_left _ _))
    · exact .inl ((ih' hst).all (List.subset_append_right _ _))
  | expression | declaration => simp at hst
  | block k _ hd ih =>
    rcases List.mem_append.1 hst with hst | hst
    · exact .inl ((ih hst).all (List.subset_cons_self _ _))
    · exact absurd hst (hdrops hd)
  | @ifThen b body k test leave skip c' onTrue onFalse exit _ ih =>
    simp only [List.mem_cons, List.mem_append, List.not_mem_nil, or_false, reduceCtorEq,
      false_or] at hst
    rcases hst with hst | hst
    · cases hst
      exact .inl (.inl ⟨k, b, rfl, List.mem_cons_self ..⟩)
    · refine .inl ((ih hst).one fun n hn => ?_)
      exact List.mem_cons_of_mem _ (List.mem_append_right _ hn)
  | @forLoop i c' u b init again drops k _ _ hd ih ih' =>
    simp only [List.mem_append] at hst
    rcases hst with hst | hst | hst
    · refine .inl ((ih hst).one fun n hn => ?_)
      exact List.mem_cons_of_mem _ (List.mem_append_left _ hn)
    · left
      rcases ih' hst with h | ⟨k', u', b', hp, ho⟩
      · refine h.mono fun n hn => ?_
        exact List.mem_cons_of_mem _ (List.mem_append_right _ hn)
      · cases hp
        exact .inr ⟨k', k, i, u, b, ho, List.mem_cons_self ..⟩
    · exact absurd hst (hdrops hd)
  | @loop c' u b test body update back start inner exit ht _ _ ihb ihu =>
    simp only [List.mem_cons, List.mem_append, List.not_mem_nil, or_false, reduceCtorEq,
      false_or] at hst
    rcases hst with rfl | hst | hst
    · cases ht with
      | present k k' e => exact .inr ⟨k, u, b, rfl, rfl⟩
    · refine .inl ((ihb hst).one fun n hn => ?_)
      exact List.mem_append_right _ (List.mem_append_right _ hn)
    · refine .inl ((ihu hst).one fun n hn => ?_)
      exact List.mem_append_right _ (List.mem_append_left _ hn)

/-! ## Undeclarations -/

/-- The name that a statement takes out of scope. -/
def Stmt.undeclared? : Stmt → Option Identifier
  | .undeclaration _ x => some x
  | _ => none

/-- The names whose scope ends with a node: those declared directly in a block, or at the
start of a loop. -/
def Node.scoped : Node → List Identifier
  | .stmt (.block _ ss) => ss.filterMap Stmt.declared?
  | .stmt (.forLoop _ i _ _ _) => i.declared?.toList
  | _ => []

/-- Undeclarations undeclare the names they are made for. -/
theorem Drops.undeclared {names : List Identifier} {drops : List Stmt} (h : Drops names drops) :
    drops.filterMap Stmt.undeclared? = names := by
  induction h with
  | nil => rfl
  | cons id h ih => simpa [Stmt.undeclared?] using ih

/-- No scope ends with an expression. -/
theorem Expr.flatMap_scoped (e : Expr) : e.nodes.flatMap Node.scoped = [] := by
  rw [List.flatMap_eq_nil_iff]
  intro n hn
  cases n with
  | expr e' => rfl
  | stmt st => exact absurd hn (e.stmt_not_mem_nodes st)

/-- An initial value opens no scope. -/
theorem Expr.flatMap_scoped_option (v : Option Expr) :
    (Expr.optionNodes v).flatMap Node.scoped = [] := by
  cases v with
  | none => rfl
  | some e => exact e.flatMap_scoped

/-- The undeclarations of code are one for each name declared directly in a block or at the
start of a loop. -/
theorem Phrase.LowersTo.undeclared {p : Phrase} {code : List Stmt} (h : p.LowersTo code) :
    (code.filterMap Stmt.undeclared?).Perm (p.nodes.flatMap Node.scoped) := by
  induction h with
  | nil => exact .nil
  | cons _ _ ih ih' =>
    simp only [List.filterMap_append, Phrase.nodes, Stmt.listNodes, List.flatMap_append]
    exact ih.append ih'
  | expression id v =>
    simp [Stmt.undeclared?, Phrase.nodes, Stmt.nodes, Node.scoped, Expr.flatMap_scoped_option]
  | declaration id t x v =>
    simp [Stmt.undeclared?, Phrase.nodes, Stmt.nodes, Node.scoped, Identifier.node,
      Expr.flatMap_scoped_option]
  | block id _ hd ih =>
    rw [List.filterMap_append, hd.undeclared]
    simp only [Phrase.nodes, Stmt.nodes, List.flatMap_cons, Node.scoped, Phrase.declared] at ih ⊢
    exact List.perm_append_comm.trans (ih.append_left _)
  | ifThen id k leave skip c onTrue onFalse exit _ ih =>
    simpa [List.filterMap_cons, Stmt.undeclared?, Phrase.nodes, Stmt.nodes, Node.scoped,
      Expr.flatMap_scoped] using ih
  | forLoop id _ _ hd ih ih' =>
    rw [List.filterMap_append, List.filterMap_append, hd.undeclared]
    simp only [Phrase.nodes, Stmt.nodes, List.flatMap_cons, List.flatMap_append, Node.scoped,
      Phrase.declared] at ih ih' ⊢
    have hparts := ih.append ih'
    rw [← List.append_assoc]
    exact List.perm_append_comm.trans (hparts.append_left _)
  | loop back start inner exit ht _ _ ihb ihu =>
    have hparts := (ihb.append ihu).trans List.perm_append_comm
    cases ht <;>
      simpa [List.filterMap_cons, Stmt.undeclared?, Phrase.nodes, Stmt.nodes, Node.scoped,
        Expr.flatMap_scoped_option] using hparts

/-! ## Programs -/

/-- A program that can be lowered has no empty places. -/
theorem filled_of_lower {program : List (Slot Stmt)} {code : List Stmt} {s s' : Supply}
    (h : lower program s = .ok (code, s')) : ∃ tree : List Stmt, program = tree.map .filled := by
  induction program generalizing s code with
  | nil => exact ⟨[], rfl⟩
  | cons slot rest ih =>
    simp only [lower, Build.bind_eq_ok_iff] at h
    obtain ⟨first, s₁, hslot, more, s₂, hrest, h⟩ := h
    cases h
    obtain ⟨tree, rfl⟩ := ih hrest
    cases slot with
    | filled st => exact ⟨st :: tree, rfl⟩
    | empty => cases hslot
    | vacant v => cases hslot

/-- What the code of a program consists of, where the labels are numbered on from those of
the supply `s`. -/
structure Inventory (tree : List Stmt) (s : Supply) (code : List Stmt) (s' : Supply) : Prop where
  variants : ∀ st ∈ code, st.variant ∈
    [.expression, .declaration, .label, .jump, .condJump, .undeclaration]
  /-- Every label that was made stands in the code, at one place. -/
  numbered : Numbered s.labels (labelsOf code) s'.labels
  labels : ((labelsOf code).map Label.id).Nodup
  names : ((labelsOf code).map Label.name).Nodup
  /-- No name was made before, by a call that succeeded or by one that failed. -/
  unused : ∀ stem s₀, Wordlike stem → s₀.labels < s.labels →
    (newLabel stem s₀).1.name ∉ (labelsOf code).map Label.name
  earlier : ∀ program₀ s₀ code₀ s₁, lower program₀ s₀ = .ok (code₀, s₁) → s₁.labels ≤ s.labels →
    ((labelsOf code₀).map Label.name).Disjoint ((labelsOf code).map Label.name)
  targets : ∀ st ∈ code, ∀ l ∈ st.targets, .label l ∈ code
  /-- The simple statements are those of the program, as the same nodes. -/
  leaves : code.filter Stmt.isSimple = Stmt.listLeaves tree
  tests : ∀ id c t f o, .condJump id c t f o ∈ code → TestsIn (Stmt.listNodes tree) c o
  /-- There is one undeclaration for each declaration in a block or at the start of a loop. -/
  undeclared : (code.filterMap Stmt.undeclared?).Perm
    ((Stmt.listNodes tree).flatMap Node.scoped)

/-- Flat code has statements of six variants only. -/
theorem Stmt.Flat.variant_mem {st : Stmt} (h : st.Flat) : st.variant ∈
    [.expression, .declaration, .label, .jump, .condJump, .undeclaration] := by
  cases st <;> simp_all [Stmt.Flat, Stmt.variant]

/-- No label of lowered code has the identity of another one. -/
theorem Drawn.nodup_labels {a b : Nat} {code : List Stmt} (h : Drawn a code b) :
    ((labelsOf code).map Label.id).Nodup := by
  have hsub : ((labelsOf code).map Label.id).Sublist (addedIds code) := by
    clear h
    induction code with
    | nil => exact .slnil
    | cons st code ih =>
      rw [addedIds_cons]
      cases st with
      | label l => exact ih.cons_cons _
      | _ => exact ih.trans (List.sublist_append_right _ _)
  exact h.nodup.sublist hsub

/-- What the code of every program that can be lowered consists of, whatever labels were
made before. -/
theorem lowered_inventory {program : List (Slot Stmt)} {code : List Stmt} {s s' : Supply}
    (h : lower program s = .ok (code, s')) :
    ∃ tree : List Stmt, program = tree.map .filled ∧ Inventory tree s code s' := by
  obtain ⟨tree, rfl⟩ := filled_of_lower h
  rw [lower_filled] at h
  obtain ⟨hlayout, hdrawn⟩ := Stmt.lowerAll_layout h
  have hnumbered := Stmt.lowerAll_numbered h
  refine ⟨tree, rfl, ?_⟩
  exact {
    variants := fun st hst => (hlayout.flat st hst).variant_mem
    numbered := hnumbered
    labels := hdrawn.nodup_labels
    names := hnumbered.nodup_names
    unused := by
      intro stem s₀ hstem hlt
      apply hnumbered.name_not_mem
      rw [newLabel_number hstem]
      omega
    earlier := by
      intro program₀ s₀ code₀ s₁ h₀ hle name hname
      obtain ⟨tree₀, rfl⟩ := filled_of_lower h₀
      rw [lower_filled] at h₀
      obtain ⟨l, hl, rfl⟩ := List.mem_map.1 hname
      have hnumber := ((Stmt.lowerAll_numbered h₀).number_mem hl).2
      exact hnumbered.name_not_mem (by omega)
    targets := by
      intro st hst l hl
      exact mem_labelsOf.1 (hlayout.targets (List.mem_flatMap.2 ⟨st, hst, hl⟩))
    leaves := hlayout.leaves
    tests := by
      intro id c t f o hst
      exact (hlayout.tests hst).all fun n hn => hn
    undeclared := hlayout.undeclared }

/-- The program `for (int i; i <= 1; i++) if (i) { int k; }`. -/
def branchingProgram : List Stmt :=
  [.forLoop 1 (.declaration 2 .int ⟨3, "i"⟩ none)
    (.expression 4 (some (.binary 5 .le (.identifier ⟨6, "i"⟩) (.constant ⟨7, .int 1⟩))))
    (.expression 8 (some (.increment 9 ⟨10, "i"⟩)))
    (.ifThen 11 (.identifier ⟨12, "i"⟩) (.block 13 [.declaration 14 .int ⟨15, "k"⟩ none]))]

/-- The labels of this program are numbered on from the label 41 made before. -/
theorem lowered_inventory_branchingProgram :
    ∃ code s', lower (branchingProgram.map .filled) ⟨16, 41⟩ = .ok (code, s') ∧
      (labelsOf code).map Label.name =
        ["begin42", "body43", "true45", "false46", "end47", "end44"] ∧
      ∃ tree : List Stmt, branchingProgram.map .filled = tree.map Slot.filled ∧
        Inventory tree ⟨16, 41⟩ code s' := by
  obtain ⟨code, s', hlower, hnames⟩ : ∃ code s',
      lower (branchingProgram.map .filled) ⟨16, 41⟩ = .ok (code, s') ∧
        (labelsOf code).map Label.name =
          ["begin42", "body43", "true45", "false46", "end47", "end44"] :=
    ⟨_, _, rfl, by decide +kernel⟩
  exact ⟨code, s', hlower, hnames, lowered_inventory hlower⟩

end Stepwise
