import Stepwise.Proofs.Steps
import Stepwise.Syntax.Walk
import Mathlib.Data.List.Nodup

/-!
# Proofs - Names in scope

Reading lowered code from its start, every declaration puts a name in scope and
every undeclaration takes one out.  Jumps are not followed.  In a tidy program,
where declarations stand at the top level, in a block or at the start of a loop
header only, each jump leads to a place with the same names in scope, so reading
the code tells which names are in scope whenever the machine stands at a place.

Main results:

- `Phrase.LowersTo.scopeAfter`: code leaves the names in scope that its phrase
  declares, after those that were in scope before.
- `Phrase.LowersTo.jumpsLevel`: a jump and its label have the same names in scope.
- `State.InScope.of_reaches`: the names in scope of a running program are those read
  off its code.
- `scope_discipline`: the names in scope at the statements of a program.
-/

namespace Stepwise

/-! ## Tidy programs -/

mutual

/-- A statement in which every declaration stands in a block or at the start of a
loop header, or is the statement itself. -/
def Stmt.Tidy : Stmt → Prop
  | .block _ ss => Stmt.AllTidy ss
  | .ifThen _ _ b => b.declared? = none ∧ b.Tidy
  | .forLoop _ i _ u b =>
    i.Tidy ∧ (u.declared? = none ∧ u.Tidy) ∧ b.declared? = none ∧ b.Tidy
  | _ => True

/-- A list of tidy statements. -/
def Stmt.AllTidy : List Stmt → Prop
  | [] => True
  | s :: ss => s.Tidy ∧ Stmt.AllTidy ss

end

/-- A phrase of a tidy program. -/
def Phrase.Tidy : Phrase → Prop
  | .one s => s.Tidy
  | .all ss => Stmt.AllTidy ss
  | .loop _ u b => (u.declared? = none ∧ u.Tidy) ∧ b.declared? = none ∧ b.Tidy

/-- A list is tidy when both of its parts are. -/
theorem Stmt.allTidy_append {ss more : List Stmt} :
    Stmt.AllTidy (ss ++ more) ↔ Stmt.AllTidy ss ∧ Stmt.AllTidy more := by
  induction ss with
  | nil => simp [Stmt.AllTidy]
  | cons s ss ih => simp [Stmt.AllTidy, ih, and_assoc]

/-! ## Reading the names in scope off the code -/

/-- The names in scope after a flat statement.  A name that leaves scope is the last
one of its name. -/
def Stmt.scopeAfter (names : List String) : Stmt → List String
  | .declaration _ _ x _ => names ++ [x.name]
  | .undeclaration _ x => (names.reverse.erase x.name).reverse
  | _ => names

/-- The names in scope after code. -/
def scopeAfter (names : List String) (code : List Stmt) : List String :=
  code.foldl Stmt.scopeAfter names

/-- The statements of code, each with the names in scope before it. -/
def scopes (names : List String) : List Stmt → List (List String × Stmt)
  | [] => []
  | st :: code => (names, st) :: scopes (st.scopeAfter names) code

section

variable (names : List String) (st : Stmt) (code more : List Stmt)

@[simp] theorem Stmt.scopeAfter_label (l : Label) : (Stmt.label l).scopeAfter names = names := rfl

@[simp] theorem Stmt.scopeAfter_jump (id : NodeId) (l : Label) :
    (Stmt.jump id l).scopeAfter names = names := rfl

@[simp] theorem Stmt.scopeAfter_condJump (id : NodeId) (c : Expr) (onTrue onFalse : Label)
    (o : Stmt) : (Stmt.condJump id c onTrue onFalse o).scopeAfter names = names := rfl

@[simp] theorem scopeAfter_nil : scopeAfter names [] = names := rfl

@[simp] theorem scopeAfter_cons :
    scopeAfter names (st :: code) = scopeAfter (st.scopeAfter names) code := rfl

@[simp] theorem scopeAfter_append :
    scopeAfter names (code ++ more) = scopeAfter (scopeAfter names code) more :=
  List.foldl_append

@[simp] theorem scopes_nil : scopes names [] = [] := rfl

@[simp] theorem scopes_cons :
    scopes names (st :: code) = (names, st) :: scopes (st.scopeAfter names) code := rfl

@[simp] theorem scopes_append :
    scopes names (code ++ more) = scopes names code ++ scopes (scopeAfter names code) more := by
  induction code generalizing names with
  | nil => rfl
  | cons st code ih => simp [ih]

/-- The names in scope before a place are those after the code before it. -/
theorem scopes_getElem? (i : Nat) :
    (scopes names code)[i]? = code[i]?.map fun st => (scopeAfter names (code.take i), st) := by
  induction code generalizing names i with
  | nil => rfl
  | cons st code ih =>
    cases i with
    | zero => rfl
    | succ i => simp [ih]

end

/-- Names that were put in scope last leave it in any order. -/
theorem scopeAfter_drops {xs : List Identifier} {drops : List Stmt} (h : Drops xs drops)
    (names : List String) {declared : List String} (hp : declared.Perm (xs.map (·.name))) :
    scopeAfter (names ++ declared) drops = names := by
  induction h generalizing declared with
  | nil =>
    obtain rfl : declared = [] := hp.eq_nil
    simp
  | @cons x xs drops id _ ih =>
    have hmem : x.name ∈ declared.reverse := by simp [hp.mem_iff]
    rw [scopeAfter_cons, Stmt.scopeAfter, List.reverse_append, List.erase_append_left _ hmem,
      List.reverse_append, List.reverse_reverse]
    refine ih ?_
    have herase := ((List.reverse_perm declared).trans hp).erase x.name
    rw [List.map_cons, List.erase_cons_head] at herase
    exact (List.reverse_perm _).trans herase

/-- Code leaves the names in scope that its phrase declares, after those that were
in scope before. -/
theorem Phrase.LowersTo.scopeAfter {p : Phrase} {code : List Stmt} (h : p.LowersTo code)
    (hp : p.Tidy) (names : List String) :
    Stepwise.scopeAfter names code = names ++ p.declared.map (·.name) := by
  induction h generalizing names with
  | nil => simp [Phrase.declared]
  | cons _ _ ih ih' =>
    rw [scopeAfter_append, ih hp.1, ih' hp.2, Phrase.declared_cons, List.map_append,
      List.append_assoc]
  | expression => simp [Stmt.scopeAfter, Phrase.declared, Stmt.declared?]
  | declaration => simp [Stmt.scopeAfter, Phrase.declared, Stmt.declared?]
  | block id _ hd ih =>
    rw [scopeAfter_append, ih hp, scopeAfter_drops hd names (.refl _)]
    simp [Phrase.declared, Stmt.declared?]
  | ifThen id k leave skip c onTrue onFalse exit _ ih =>
    have hbody := ih hp.2 names
    rw [Phrase.declared, hp.1] at hbody
    simpa [Phrase.declared, Stmt.declared?] using hbody
  | forLoop id _ _ hd ih ih' =>
    rw [scopeAfter_append, scopeAfter_append, ih hp.1, ih' hp.2]
    rw [show (Phrase.loop _ _ _).declared = [] from rfl, List.map_nil, List.append_nil,
      scopeAfter_drops hd names (.refl _)]
    simp [Phrase.declared, Stmt.declared?]
  | @loop c u b test body update back start inner exit ht _ _ ihb ihu =>
    have hbody := ihb hp.2.2 names
    have hupdate := ihu hp.1.2 names
    rw [Phrase.declared, hp.2.1] at hbody
    rw [Phrase.declared, hp.1.1] at hupdate
    have htest : test.scopeAfter names = names := by cases ht <;> rfl
    simpa [htest, hbody, Phrase.declared] using hupdate

/-- Code in which every jump finds its label, with the same names in scope. -/
def JumpsLevel (names : List String) (code : List Stmt) : Prop :=
  ∀ ns st, (ns, st) ∈ scopes names code → ∀ l ∈ st.targets, (ns, .label l) ∈ scopes names code

/-- Jumps are level in code whose parts have level jumps. -/
theorem JumpsLevel.append {names : List String} {code more : List Stmt} (h : JumpsLevel names code)
    (h' : JumpsLevel (scopeAfter names code) more) : JumpsLevel names (code ++ more) := by
  intro ns st hst l hl
  rw [scopes_append, List.mem_append] at hst ⊢
  exact hst.imp (fun hst => h ns st hst l hl) fun hst => h' ns st hst l hl

/-- Code without jumps is level. -/
theorem Drops.jumpsLevel {xs : List Identifier} {drops : List Stmt} (h : Drops xs drops)
    (names : List String) : JumpsLevel names drops := by
  induction h generalizing names with
  | nil => simp [JumpsLevel]
  | cons id _ ih =>
    intro ns st hst l hl
    rw [scopes_cons, List.mem_cons] at hst ⊢
    rcases hst with hst | hst
    · cases hst
      simp [Stmt.targets] at hl
    · exact .inr (ih _ ns st hst l hl)

/-- In lowered code a jump and its label have the same names in scope. -/
theorem Phrase.LowersTo.jumpsLevel {p : Phrase} {code : List Stmt} (h : p.LowersTo code)
    (hp : p.Tidy) (names : List String) : JumpsLevel names code := by
  induction h generalizing names with
  | nil => simp [JumpsLevel]
  | cons _ _ ih ih' => exact (ih hp.1 _).append (ih' hp.2 _)
  | expression | declaration => simp [JumpsLevel, Stmt.targets]
  | block id _ hd ih => exact (ih hp _).append (hd.jumpsLevel _)
  | @ifThen b body id k leave skip c onTrue onFalse exit hl ih =>
    have hbody := hl.scopeAfter hp.2 names
    simp only [Phrase.declared, hp.1, Option.toList_none, List.map_nil, List.append_nil] at hbody
    intro ns st hst l hlabel
    simp only [scopes_cons, scopes_append, scopes_nil, Stmt.scopeAfter_label,
      Stmt.scopeAfter_jump, Stmt.scopeAfter_condJump, hbody, List.mem_cons,
      List.mem_append] at hst ⊢
    rcases hst with hst | hst | hst | hst
    · grind [Stmt.targets]
    · grind [Stmt.targets]
    · exact .inr (.inr (.inl (ih hp.2 names ns st hst l hlabel)))
    · grind [Stmt.targets]
  | forLoop id _ _ hd ih ih' => exact (ih hp.1 _).append ((ih' hp.2 _).append (hd.jumpsLevel _))
  | @loop c u b test body update back start inner exit ht hl hl' ihb ihu =>
    have hbody := hl.scopeAfter hp.2.2 names
    have hupdate := hl'.scopeAfter hp.1.2 names
    simp only [Phrase.declared, hp.2.1, Option.toList_none, List.map_nil, List.append_nil] at hbody
    simp only [Phrase.declared, hp.1.1, Option.toList_none, List.map_nil,
      List.append_nil] at hupdate
    have htest : test.scopeAfter names = names := by cases ht <;> rfl
    have htargets : ∀ l ∈ test.targets, l = inner ∨ l = exit := by
      cases ht <;> simp [Stmt.targets]
    intro ns st hst l hlabel
    simp only [scopes_cons, scopes_append, scopes_nil, Stmt.scopeAfter_label,
      Stmt.scopeAfter_jump, htest, hbody, hupdate, List.mem_cons, List.mem_append] at hst ⊢
    rcases hst with hst | hst | hst | hst | hst | hst
    · grind [Stmt.targets]
    · grind
    · grind [Stmt.targets]
    · exact .inr (.inr (.inr (.inl (ihb hp.2.2 names ns st hst l hlabel))))
    · exact .inr (.inr (.inr (.inr (.inl (ihu hp.1.2 names ns st hst l hlabel)))))
    · grind [Stmt.targets]

/-! ## The names in scope of a running program -/

namespace State

variable {w : List Stmt} {i j : Nat} {st st' : Stmt} {sup : Supply} {s t : State}

/-- The names in scope before a place of code. -/
def scopeAt (w : List Stmt) (i : Nat) : List String :=
  Stepwise.scopeAfter [] (w.take i)

/-- The scope after a place is what the statement there makes of the scope at it. -/
theorem scopeAt_succ (h : w[i]? = some st) : scopeAt w (i + 1) = st.scopeAfter (scopeAt w i) := by
  simp [scopeAt, List.take_add_one, h]

/-- Labels change nothing. -/
theorem scopeAt_skipLabels : scopeAt w (skipLabels (w.map .filled) i) = scopeAt w i := by
  refine skipLabels_induct (P := fun j => scopeAt w j = scopeAt w i) rfl fun j l hl hj => ?_
  rw [scopeAt_succ hl, Stmt.scopeAfter_label, hj]

/-- A jump leads to a place with the same names in scope. -/
theorem scopeAt_jump (hw : JumpsLevel [] w) (hu : UniqueLabels w) (hst : w[i]? = some st)
    {l l' : Label} (hl : l ∈ st.targets) (hj : w[j]? = some (.label l')) (hid : l'.id = l.id) :
    scopeAt w j = scopeAt w i := by
  have hmem : (scopeAt w i, st) ∈ scopes [] w :=
    List.mem_of_getElem? (by rw [scopes_getElem?, hst]; rfl)
  obtain ⟨k, hk⟩ := List.mem_iff_getElem?.1 (hw _ _ hmem l hl)
  rw [scopes_getElem?, Option.map_eq_some_iff] at hk
  obtain ⟨lbl, hk, heq⟩ := hk
  obtain ⟨hscope, rfl⟩ := Prod.mk.inj heq
  obtain rfl := hu hj hk hid
  exact hscope

/-- Reducing in a statement does not change what it does to the names in scope. -/
theorem Progress.scopeAfter (h : Progress st st') (names : List String) :
    st'.scopeAfter names = st.scopeAfter names := by
  cases h with
  | start => rfl
  | refill frame => cases frame <;> rfl

/-- Reducing an expression keeps the targets of a statement. -/
theorem Progress.targets (h : Progress st st') : st'.targets = st.targets := by
  cases h with
  | start => rfl
  | refill frame => cases frame <;> rfl

/-- The names in scope of a state are those read off the code. -/
structure InScope (w : List Stmt) (s : State) : Prop where
  names : s.env.names = scopeAt w s.pc
  nodup : s.env.names.Nodup

/-- A run that resumes at a place whose scope it has is in scope. -/
theorem resume_inScope {env : Env} (h : env.names = scopeAt w i) (hn : env.names.Nodup)
    (out : String) (sup : Supply) : InScope w (resume w i env out sup) :=
  ⟨h.trans scopeAt_skipLabels.symm, hn⟩

/-- A name that leaves scope is the only one of its name. -/
theorem reverse_erase_of_nodup {names : List String} (h : names.Nodup) (x : String) :
    (names.reverse.erase x).reverse = names.erase x := by
  rw [(List.nodup_reverse.2 h).erase_eq_filter, h.erase_eq_filter, List.filter_reverse,
    List.reverse_reverse]

/-- A step keeps the names in scope in line with the code. -/
theorem InScope.step (hlevel : JumpsLevel [] w) (hu : UniqueLabels w) (hs : InScope w s)
    (hp : Placed w s) (h : s.step = .ok t) : InScope w t := by
  obtain ⟨hnames, hnodup⟩ := hs
  obtain ⟨i, st, st', env, out, sup, rfl, hst, -, hprog, hc, hmoves⟩ := hp.moves h
  replace hnames : env.names = scopeAt w i := hnames
  replace hnodup : env.names.Nodup := hnodup
  have hnext : scopeAt w (i + 1) = st'.scopeAfter env.names := by
    rw [scopeAt_succ hst, ← hprog.scopeAfter, hnames]
  cases hmoves with
  | reduce frame id he hx =>
    have henv := ((Expr.reduce_eq_ok_iff hc.of_fill).1 hx).names
    exact ⟨henv.trans hnames, henv ▸ hnodup⟩
  | advance id v => exact resume_inScope hnext.symm hnodup _ _
  | declare id type v value hx =>
    have henv := Env.names_insert_of_not_mem ⟨sup.node, value⟩ hx
    refine resume_inScope (henv.trans hnext.symm) ?_ _ _
    rw [henv, List.nodup_append]
    refine ⟨hnodup, by simp, ?_⟩
    rintro a ha b hb rfl
    exact hx (List.mem_singleton.1 hb ▸ ha)
  | undeclare id hx =>
    refine resume_inScope ?_ ?_ _ _
    · rw [Env.names_erase, hnext, Stmt.scopeAfter, reverse_erase_of_nodup hnodup]
    · rw [Env.names_erase]
      exact hnodup.erase _
  | jump hlabel hj hid =>
    rw [hprog.targets] at hlabel
    exact resume_inScope (hnames.trans (scopeAt_jump hlevel hu hst hlabel hj hid).symm) hnodup _ _

/-- Every state of a run over level code has the names in scope that are read off
the code. -/
theorem InScope.of_reaches (hchecked : Stmt.AllChecked w) (hlevel : JumpsLevel [] w)
    (hu : UniqueLabels w) (ht : Reaches (init (w.map .filled) sup) t) : InScope w t := by
  refine ht.induct_along (resume_inScope rfl (by simp) _ _) ?_
  intro t u ht hs htu
  exact hs.step hlevel hu (.of_reaches hchecked ht) htu

/-- The names in scope after a part of the code. -/
theorem scopeAt_add {part : List Stmt} (h : StandsAt w i part) :
    scopeAt w (i + part.length) = Stepwise.scopeAfter (scopeAt w i) part := by
  rw [scopeAt, List.take_add, ← List.prefix_iff_eq_take.1 h, scopeAfter_append, scopeAt]

end State

/-! ## Structured statements in a program -/

/-- Whether a statement holds other statements. -/
def Stmt.isStructured : Stmt → Bool
  | .block .. | .ifThen .. | .forLoop .. => true
  | _ => false

/-- The nodes of a phrase. -/
def Phrase.nodes : Phrase → List Node
  | .one s => s.nodes
  | .all ss => Stmt.listNodes ss
  | .loop c u b => c.nodes ++ (u.nodes ++ b.nodes)

/-- The nodes of an expression are expressions. -/
theorem Expr.stmt_not_mem_nodes (st : Stmt) (e : Expr) : Node.stmt st ∉ e.nodes := by
  induction e using Expr.induct with
  | invoke id f args ih =>
    have hargs : Node.stmt st ∉ Expr.listNodes args := by
      induction args with
      | nil => simp [Expr.listNodes]
      | cons e es ihes =>
        simp only [List.mem_cons, forall_eq_or_imp] at ih
        simp [Expr.listNodes, ih.1, ihes ih.2]
    simp [Expr.nodes, Identifier.node, hargs]
  | _ => simp_all [Expr.nodes, Identifier.node]

/-- An initial value holds no statements. -/
theorem Expr.stmt_not_mem_optionNodes (st : Stmt) (v : Option Expr) :
    Node.stmt st ∉ Expr.optionNodes v := by
  cases v with
  | none => simp [Expr.optionNodes]
  | some e => exact e.stmt_not_mem_nodes st

/-- Every structured statement of a phrase has code that stands in the code of the
phrase, and is tidy when the phrase is. -/
theorem Phrase.LowersTo.part_of_node {w code : List Stmt} {i : Nat} {p : Phrase} {st : Stmt}
    (h : p.LowersTo code) (hw : StandsAt w i code) (hn : Node.stmt st ∈ p.nodes)
    (hst : st.isStructured = true) :
    (∃ j part, StandsAt w j part ∧ (Phrase.one st).LowersTo part) ∧ (p.Tidy → st.Tidy) := by
  have hwhole := h
  induction h generalizing i with
  | nil => simp [Phrase.nodes, Stmt.listNodes] at hn
  | cons hl hl' ih ih' =>
    simp only [Phrase.nodes, Stmt.listNodes, List.mem_append] at hn
    obtain ⟨hw, hw'⟩ := standsAt_append.1 hw
    rcases hn with hn | hn
    · obtain ⟨hpart, htidy⟩ := ih hw hn hl
      exact ⟨hpart, fun h => htidy h.1⟩
    · obtain ⟨hpart, htidy⟩ := ih' hw' hn hl'
      exact ⟨hpart, fun h => htidy h.2⟩
  | expression id v =>
    simp only [Phrase.nodes, Stmt.nodes, List.mem_cons, Expr.stmt_not_mem_optionNodes,
      or_false] at hn
    cases hn
    cases hst
  | declaration id t x v =>
    simp only [Phrase.nodes, Stmt.nodes, Identifier.node, List.mem_cons, reduceCtorEq,
      Expr.stmt_not_mem_optionNodes, or_false] at hn
    cases hn
    cases hst
  | block id hl hd ih =>
    simp only [Phrase.nodes, Stmt.nodes, List.mem_cons] at hn
    rcases hn with hn | hn
    · cases hn
      exact ⟨⟨i, _, hw, hwhole⟩, fun h => h⟩
    · exact ih (standsAt_append.1 hw).1 hn hl
  | ifThen id k leave skip c onTrue onFalse exit hl ih =>
    simp only [Phrase.nodes, Stmt.nodes, List.mem_cons, List.mem_append,
      Expr.stmt_not_mem_nodes, false_or] at hn
    rcases hn with hn | hn
    · cases hn
      exact ⟨⟨i, _, hw, hwhole⟩, fun h => h⟩
    · simp only [standsAt_cons, standsAt_append] at hw
      obtain ⟨hpart, htidy⟩ := ih hw.2.2.1 hn hl
      exact ⟨hpart, fun h => htidy h.2⟩
  | forLoop id hl hl' hd ih ih' =>
    simp only [Phrase.nodes, Stmt.nodes, List.mem_cons, List.mem_append] at hn
    rcases hn with hn | hn | hn
    · cases hn
      exact ⟨⟨i, _, hw, hwhole⟩, fun h => h⟩
    · obtain ⟨hpart, htidy⟩ := ih (standsAt_append.1 hw).1 hn hl
      exact ⟨hpart, fun h => htidy h.1⟩
    · simp only [standsAt_append] at hw
      obtain ⟨hpart, htidy⟩ := ih' hw.2.1 (by simpa [Phrase.nodes] using hn) hl'
      exact ⟨hpart, fun h => htidy h.2⟩
  | loop back start inner exit ht hl hl' ihb ihu =>
    simp only [standsAt_cons, standsAt_append] at hw
    simp only [Phrase.nodes, List.mem_append] at hn
    rcases hn with hn | hn | hn
    · cases ht <;>
        simp only [Stmt.nodes, List.mem_cons, Expr.stmt_not_mem_optionNodes, or_false] at hn
      all_goals
        cases hn
        cases hst
    · obtain ⟨hpart, htidy⟩ := ihu hw.2.2.2.2.1 hn hl'
      exact ⟨hpart, fun h => htidy h.1.2⟩
    · obtain ⟨hpart, htidy⟩ := ihb hw.2.2.2.1 hn hl
      exact ⟨hpart, fun h => htidy h.2.2⟩

/-! ## Scope discipline -/

/-- In a run of a tidy program, the names in scope at the start of a top-level
statement are those that the statements before it declare, in their order, and at
the end those that all of them declare.  Every structured statement of the program
leaves the names in scope as it found them. -/
theorem scope_discipline {tree code : List Stmt} {s s' start : Supply} {t : State}
    (htree : Stmt.AllChecked tree) (htidy : Stmt.AllTidy tree)
    (hlower : lower (tree.map .filled) s = .ok (code, s'))
    (ht : State.Reaches (State.init (code.map .filled) start) t) :
    (∀ k, ∃ front s₁, lower ((tree.take k).map .filled) s = .ok (front, s₁) ∧ front <+: code ∧
      (t.pc = State.skipLabels (code.map .filled) front.length →
        t.env.names = ((tree.take k).filterMap Stmt.declared?).map (·.name))) ∧
    (t.done = true → t.env.names = (tree.filterMap Stmt.declared?).map (·.name)) ∧
    (∀ st, Node.stmt st ∈ Stmt.listNodes tree → st.isStructured = true →
      (∃ i part, StandsAt code i part ∧ (Phrase.one st).LowersTo part) ∧
      ∀ i part u, StandsAt code i part → (Phrase.one st).LowersTo part →
        t.pc = State.skipLabels (code.map .filled) i → State.Reaches t u →
        u.pc = State.skipLabels (code.map .filled) (i + part.length) →
        u.env.names = t.env.names) := by
  rw [lower_filled] at hlower
  obtain ⟨hl, hd⟩ := Stmt.lowerAll_layout hlower
  have hchecked := hl.checked htree
  have hscope : ∀ {u}, State.Reaches (State.init (code.map .filled) start) u →
      u.env.names = State.scopeAt code u.pc := fun hu =>
    (State.InScope.of_reaches hchecked (hl.jumpsLevel htidy []) hd.uniqueLabels hu).names
  refine ⟨fun k => ?_, fun hdone => ?_, fun st hn hst => ?_⟩
  · rw [← List.take_append_drop k tree] at hlower htidy
    obtain ⟨front, s₁, back, hfront, -, rfl⟩ := Stmt.lowerAll_append hlower
    refine ⟨front, s₁, by rw [lower_filled, hfront], List.prefix_append _ _, fun hpc => ?_⟩
    rw [hscope ht, hpc, State.scopeAt_skipLabels, State.scopeAt, List.take_left,
      (Stmt.lowerAll_layout hfront).1.scopeAfter (Stmt.allTidy_append.1 htidy).1]
    rfl
  · rw [hscope ht, (State.Placed.of_reaches hchecked ht).done_iff.1 hdone, State.ended,
      State.scopeAt, List.take_length, hl.scopeAfter htidy]
    rfl
  · obtain ⟨hpart, hst'⟩ := hl.part_of_node (standsAt_self code) hn hst
    refine ⟨hpart, fun i part u hw hlp htpc htu hupc => ?_⟩
    have hnone : st.declared? = none := by cases st <;> simp_all [Stmt.isStructured, Stmt.declared?]
    rw [hscope (ht.trans htu), hscope ht, hupc, htpc, State.scopeAt_skipLabels,
      State.scopeAt_skipLabels, State.scopeAt_add hw, hlp.scopeAfter (hst' htidy)]
    simp [Phrase.declared, hnone]

/-- The program `int a; for (int i; i <= a; i++) { int b; } int c;`. -/
def nestedProgram : List Stmt :=
  [.declaration 1 .int ⟨2, "a"⟩ none,
    .forLoop 3 (.declaration 4 .int ⟨5, "i"⟩ none)
      (.expression 6 (some (.binary 7 .le (.identifier ⟨8, "i"⟩) (.identifier ⟨9, "a"⟩))))
      (.expression 10 (some (.increment 11 ⟨12, "i"⟩)))
      (.block 13 [.declaration 14 .int ⟨15, "b"⟩ none]),
    .declaration 16 .int ⟨17, "c"⟩ none]

/-- At its end the program has the outer names in scope only. -/
theorem scope_discipline_nestedProgram :
    Stmt.AllChecked nestedProgram ∧ Stmt.AllTidy nestedProgram ∧
      ∃ code s' t, lower (nestedProgram.map .filled) ⟨18, 0⟩ = .ok (code, s') ∧
        State.Reaches (State.init (code.map .filled) s') t ∧ t.done = true ∧
        t.env.names = ["a", "c"] := by
  have hchecked : Stmt.AllChecked nestedProgram := by
    simp [nestedProgram, Identifier.Checked, Datatype.declarable, BinaryOp.known]
  have htidy : Stmt.AllTidy nestedProgram := by
    simp [nestedProgram, Stmt.AllTidy, Stmt.Tidy, Stmt.declared?]
  obtain ⟨code, s', hlower, hrun⟩ : ∃ code s',
      lower (nestedProgram.map .filled) ⟨18, 0⟩ = .ok (code, s') ∧
        ((State.init (code.map .filled) s').steps 17).toOption.any State.done = true :=
    ⟨_, _, rfl, by decide +kernel⟩
  cases hsteps : (State.init (code.map .filled) s').steps 17 with
  | error err =>
    rw [hsteps] at hrun
    cases hrun
  | ok t =>
    rw [hsteps] at hrun
    exact ⟨hchecked, htidy, code, s', t, hlower, ⟨17, hsteps⟩, hrun,
      (scope_discipline hchecked htidy hlower ⟨17, hsteps⟩).2.1 hrun⟩

end Stepwise
