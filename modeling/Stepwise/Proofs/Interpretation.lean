import Stepwise.Proofs.Layout
import Stepwise.Proofs.Reduction

/-!
# Proofs - Structured interpretation

The meaning of source statements, told without labels, places and identities: a
memory holds the variables with their values and everything printed, an
expression is reduced until it is a constant, and statements run in the order in
which they are written.  A run ends normally or with an error, in a memory either
way; a run that does neither has no end.

Main results:

- `Phrase.Runs`: the rules of interpretation.
- `Phrase.Runs.scope`: what was in scope stays in scope, and so do the names that
  are declared last.
- `Phrase.Runs.foreseen`: the errors that can end a run.
-/

namespace Stepwise

/-! ## Memories -/

/-- The variables in scope, the oldest first, and everything printed. -/
structure Memory where
  vars : List (String × Value)
  output : String

namespace Memory

/-- Nothing is in scope and nothing was printed. -/
def empty : Memory := ⟨[], ""⟩

/-- The names in scope, the oldest first. -/
def names (m : Memory) : List String :=
  m.vars.map (·.1)

/-- A new variable, after all others. -/
def declare (m : Memory) (name : String) (value : Value) : Memory :=
  { m with vars := m.vars ++ [(name, value)] }

/-- Some names leave scope, one after the other. -/
def leave (m : Memory) (names : List Identifier) : Memory :=
  { m with vars := names.foldl (fun vars x => Env.discard x.name vars) m.vars }

@[simp] theorem names_declare (m : Memory) (name : String) (value : Value) :
    (m.declare name value).names = m.names ++ [name] := by
  simp [declare, names]

/-- Leaving a scope discards its names in turn. -/
theorem leave_cons (m : Memory) (x : Identifier) (names : List Identifier) :
    m.leave (x :: names) = { m with vars := Env.discard x.name m.vars : Memory }.leave names := rfl

/-- Discarding a name erases it from the names. -/
theorem names_discard (name : String) (vars : List (String × Value)) :
    (Env.discard name vars).map (·.1) = (vars.map (·.1)).erase name := by
  rw [Env.discard, List.erase_eq_eraseP', List.eraseP_map]
  rfl

/-- Names that leave scope are taken out of the names in scope. -/
theorem names_leave (m : Memory) (xs : List Identifier) :
    (m.leave xs).names = m.names.diff (xs.map (·.name)) := by
  induction xs generalizing m with
  | nil => rfl
  | cons x xs ih => rw [leave_cons, ih, names, names_discard, List.map_cons, List.diff_cons, names]

end Memory

/-! ## Expressions -/

/-- Evaluating an expression: it is reduced until it is a constant or a reduction
fails.  The identities that reductions give out are of no concern. -/
inductive Expr.Evaluates : Expr → Memory → Except EvalError Value → Memory → Prop
  | constant (c : Constant) (m : Memory) : Evaluates (.constant c) m (.ok c.value) m
  | reduce {e : Expr} {env : Env} {s s' : Supply} {x : Reduction} {out : String}
      {r : Except EvalError Value} {m : Memory} :
      e.constant? = none → e.reduce env s = .ok (x, s') →
      Evaluates x.expr ⟨x.env.contents, out ++ x.output⟩ r m → Evaluates e ⟨env.contents, out⟩ r m
  | fail {e : Expr} {env : Env} {s : Supply} {err : EvalError} {out : String} :
      e.constant? = none → e.reduce env s = .error err →
      Evaluates e ⟨env.contents, out⟩ (.error err) ⟨env.contents, out⟩

/-- Testing an expression: its value is true or false, or has no truth. -/
inductive Expr.Tests : Expr → Memory → Except EvalError Bool → Memory → Prop
  | value {e : Expr} {m m' : Memory} {v : Value} :
      e.Evaluates m (.ok v) m' → Tests e m v.truth m'
  | fail {e : Expr} {m m' : Memory} {err : EvalError} :
      e.Evaluates m (.error err) m' → Tests e m (.error err) m'

/-- The value a variable of a type is declared with. -/
inductive Datatype.Initial (t : Datatype) :
    Option Expr → Memory → Except EvalError Value → Memory → Prop
  | zero (m : Memory) : Initial t none m (.ok (.zero t)) m
  | value {e : Expr} {m m' : Memory} {r : Except EvalError Value} :
      e.Evaluates m r m' → Initial t (some e) m r m'

/-- Whether a loop goes on; it does when it has no condition. -/
inductive Stmt.Continues : Stmt → Memory → Except EvalError Bool → Memory → Prop
  | absent (id : NodeId) (m : Memory) : Continues (.expression id none) m (.ok true) m
  | present {e : Expr} {m m' : Memory} {r : Except EvalError Bool} (id : NodeId) :
      e.Tests m r m' → Continues (.expression id (some e)) m r m'

/-! ## Statements -/

/-- Running a phrase: it ends normally or with an error, in a memory. -/
inductive Phrase.Runs : Phrase → Memory → Except EvalError Unit → Memory → Prop
  | nil (m : Memory) : Runs (.all []) m (.ok ()) m
  | next {s ss m m₁ m₂ r} : Runs (.one s) m (.ok ()) m₁ → Runs (.all ss) m₁ r m₂ →
      Runs (.all (s :: ss)) m r m₂
  | stop {s ss m m₁ err} : Runs (.one s) m (.error err) m₁ →
      Runs (.all (s :: ss)) m (.error err) m₁
  | nop (id : NodeId) (m : Memory) : Runs (.one (.expression id none)) m (.ok ()) m
  | expression {e m m₁ v} (id : NodeId) : e.Evaluates m (.ok v) m₁ →
      Runs (.one (.expression id (some e))) m (.ok ()) m₁
  | expressionFails {e m m₁ err} (id : NodeId) : e.Evaluates m (.error err) m₁ →
      Runs (.one (.expression id (some e))) m (.error err) m₁
  | declaration {t x v m m₁ value} (id : NodeId) : Datatype.Initial t v m (.ok value) m₁ →
      x.name ∉ m₁.names → value.storable x.name = .ok () →
      Runs (.one (.declaration id t x v)) m (.ok ()) (m₁.declare x.name value)
  | initialFails {t x v m m₁ err} (id : NodeId) : Datatype.Initial t v m (.error err) m₁ →
      Runs (.one (.declaration id t x v)) m (.error err) m₁
  | alreadyDeclared {t x v m m₁ value} (id : NodeId) : Datatype.Initial t v m (.ok value) m₁ →
      x.name ∈ m₁.names →
      Runs (.one (.declaration id t x v)) m (.error (.alreadyDeclared x.name)) m₁
  | unstorable {t x v m m₁ value err} (id : NodeId) : Datatype.Initial t v m (.ok value) m₁ →
      x.name ∉ m₁.names → value.storable x.name = .error err →
      Runs (.one (.declaration id t x v)) m (.error err) m₁
  | block {ss m m₁} (id : NodeId) : Runs (.all ss) m (.ok ()) m₁ →
      Runs (.one (.block id ss)) m (.ok ()) (m₁.leave (Phrase.all ss).declared)
  | blockFails {ss m m₁ err} (id : NodeId) : Runs (.all ss) m (.error err) m₁ →
      Runs (.one (.block id ss)) m (.error err) m₁
  | ifTrue {c b m m₁ m₂ r} (id : NodeId) : c.Tests m (.ok true) m₁ → Runs (.one b) m₁ r m₂ →
      Runs (.one (.ifThen id c b)) m r m₂
  | ifFalse {c b m m₁} (id : NodeId) : c.Tests m (.ok false) m₁ →
      Runs (.one (.ifThen id c b)) m (.ok ()) m₁
  | ifFails {c b m m₁ err} (id : NodeId) : c.Tests m (.error err) m₁ →
      Runs (.one (.ifThen id c b)) m (.error err) m₁
  | forLoop {i c u b m m₁ m₂} (id : NodeId) : Runs (.one i) m (.ok ()) m₁ →
      Runs (.loop c u b) m₁ (.ok ()) m₂ →
      Runs (.one (.forLoop id i c u b)) m (.ok ()) (m₂.leave (Phrase.one i).declared)
  | initFails {i c u b m m₁ err} (id : NodeId) : Runs (.one i) m (.error err) m₁ →
      Runs (.one (.forLoop id i c u b)) m (.error err) m₁
  | loopFails {i c u b m m₁ m₂ err} (id : NodeId) : Runs (.one i) m (.ok ()) m₁ →
      Runs (.loop c u b) m₁ (.error err) m₂ →
      Runs (.one (.forLoop id i c u b)) m (.error err) m₂
  | exit {c u b m m₁} : c.Continues m (.ok false) m₁ → Runs (.loop c u b) m (.ok ()) m₁
  | again {c u b m m₁ m₂ m₃ r} : c.Continues m (.ok true) m₁ →
      Runs (.all [b, u]) m₁ (.ok ()) m₂ → Runs (.loop c u b) m₂ r m₃ →
      Runs (.loop c u b) m r m₃
  | roundFails {c u b m m₁ m₂ err} : c.Continues m (.ok true) m₁ →
      Runs (.all [b, u]) m₁ (.error err) m₂ → Runs (.loop c u b) m (.error err) m₂
  | testFails {c u b m m₁ err} : c.Continues m (.error err) m₁ →
      Runs (.loop c u b) m (.error err) m₁

/-! ## Names in scope -/

/-- Evaluating an expression keeps the names in scope. -/
theorem Expr.Evaluates.names {e : Expr} {m m' : Memory} {r : Except EvalError Value}
    (h : e.Evaluates m r m') (he : e.Checked) : m'.names = m.names := by
  induction h with
  | constant | fail => rfl
  | reduce hnone hx _ ih =>
    have hred := (Expr.reduce_eq_ok_iff he).1 hx
    rw [ih (hred.checked he), Memory.names, Memory.names, ← Env.names_eq_contents,
      ← Env.names_eq_contents, hred.names]

/-- A test keeps the names in scope. -/
theorem Expr.Tests.names {e : Expr} {m m' : Memory} {r : Except EvalError Bool}
    (h : e.Tests m r m') (he : e.Checked) : m'.names = m.names := by
  cases h with
  | value h | fail h => exact h.names he

theorem Datatype.Initial.names {t : Datatype} {v : Option Expr} {m m' : Memory}
    {r : Except EvalError Value} (h : t.Initial v m r m') (hv : Expr.OptionChecked v) :
    m'.names = m.names := by
  cases h with
  | zero => rfl
  | value h => exact h.names hv

/-- The condition of a loop keeps the names in scope. -/
theorem Stmt.Continues.names {c : Stmt} {m m' : Memory} {r : Except EvalError Bool}
    (h : c.Continues m r m') (hc : c.Checked) : m'.names = m.names := by
  cases h with
  | absent => rfl
  | present id h => exact h.names hc

/-- Names that were declared after all others leave the others as they are. -/
private theorem sublist_diff {before declared after : List String} (hn : after.Nodup)
    (hs : (before ++ declared).Sublist after) : before.Sublist (after.diff declared) := by
  have hdisjoint : ∀ x ∈ before, x ∉ declared := fun x hx hx' =>
    (List.nodup_append.1 (hn.sublist hs)).2.2 x hx x hx' rfl
  have hbefore : before.filter (· ∉ declared) = before := by
    simpa [List.filter_eq_self] using hdisjoint
  rw [hn.sdiff_eq_filter, ← hbefore]
  exact ((List.sublist_append_left before declared).trans hs).filter _

/-- What was in scope stays in scope, in its order.  After a normal end the names
that the phrase declares are in scope too, after the others. -/
theorem Phrase.Runs.scope {p : Phrase} {m m' : Memory} {r : Except EvalError Unit}
    (h : p.Runs m r m') (hp : p.Checked) (hm : m.names.Nodup) :
    m'.names.Nodup ∧ (r = .ok () → (m.names ++ p.declared.map (·.name)).Sublist m'.names) := by
  have failed : ∀ {err : EvalError} {P : Prop},
      (.error err : Except EvalError Unit) = .ok () → P := by
    intro err P hr
    cases hr
  induction h with
  | nil => exact ⟨hm, fun _ => by simp [Phrase.declared]⟩
  | next _ _ ih ih' =>
    obtain ⟨hn, hs⟩ := ih hp.1 hm
    obtain ⟨hn', hs'⟩ := ih' hp.2 hn
    refine ⟨hn', fun hr => ?_⟩
    rw [Phrase.declared_cons, List.map_append, ← List.append_assoc]
    exact ((hs rfl).append_right _).trans (hs' hr)
  | stop _ ih => exact ⟨(ih hp.1 hm).1, failed⟩
  | nop => exact ⟨hm, fun _ => by simp [Phrase.declared, Stmt.declared?]⟩
  | expression id he =>
    have hnames := he.names hp
    exact ⟨hnames ▸ hm, fun _ => by simp [Phrase.declared, Stmt.declared?, hnames]⟩
  | expressionFails id he => exact ⟨he.names hp ▸ hm, failed⟩
  | declaration id hv hx =>
    rw [Memory.names_declare, hv.names hp.2.2] at *
    refine ⟨List.nodup_append.2 ⟨hm, by simp, ?_⟩, fun _ => ?_⟩
    · rintro a ha b hb rfl
      exact hx (List.mem_singleton.1 hb ▸ ha)
    · simp [Phrase.declared, Stmt.declared?]
  | initialFails id hv | alreadyDeclared id hv | unstorable id hv =>
    exact ⟨hv.names hp.2.2 ▸ hm, failed⟩
  | block id _ ih =>
    obtain ⟨hn, hs⟩ := ih hp hm
    rw [Memory.names_leave]
    refine ⟨hn.diff, fun _ => ?_⟩
    simpa [Phrase.declared, Stmt.declared?] using sublist_diff hn (hs rfl)
  | blockFails id _ ih => exact ⟨(ih hp hm).1, failed⟩
  | ifTrue id hc _ ih =>
    rw [← hc.names hp.1] at hm ⊢
    obtain ⟨hn, hs⟩ := ih hp.2 hm
    refine ⟨hn, fun hr => ?_⟩
    simpa [Phrase.declared, Stmt.declared?] using (List.sublist_append_left _ _).trans (hs hr)
  | ifFalse id hc =>
    have hnames := hc.names hp.1
    exact ⟨hnames ▸ hm, fun _ => by simp [Phrase.declared, Stmt.declared?, hnames]⟩
  | ifFails id hc => exact ⟨hc.names hp.1 ▸ hm, failed⟩
  | forLoop id _ _ ih ih' =>
    obtain ⟨hn, hs⟩ := ih hp.1 hm
    obtain ⟨hn', hs'⟩ := ih' hp.2 hn
    rw [Memory.names_leave]
    refine ⟨hn'.diff, fun _ => ?_⟩
    have hloop := (hs rfl).trans ((List.sublist_append_left _ _).trans (hs' rfl))
    simpa [Phrase.declared, Stmt.declared?] using sublist_diff hn' hloop
  | initFails id _ ih => exact ⟨(ih hp.1 hm).1, failed⟩
  | loopFails id _ _ ih ih' => exact ⟨(ih' hp.2 (ih hp.1 hm).1).1, failed⟩
  | exit hc =>
    have hnames := hc.names hp.1
    exact ⟨hnames ▸ hm, fun _ => by simp [Phrase.declared, hnames]⟩
  | again hc _ _ ih ih' =>
    rw [← hc.names hp.1] at hm ⊢
    obtain ⟨hn, hs⟩ := ih ⟨hp.2.2, hp.2.1, trivial⟩ hm
    obtain ⟨hn', hs'⟩ := ih' hp hn
    refine ⟨hn', fun hr => ?_⟩
    have hround := (List.sublist_append_left _ _).trans (hs rfl)
    simpa [Phrase.declared] using hround.trans ((List.sublist_append_left _ _).trans (hs' hr))
  | roundFails hc _ ih =>
    rw [← hc.names hp.1] at hm
    exact ⟨(ih ⟨hp.2.2, hp.2.1, trivial⟩ hm).1, failed⟩
  | testFails hc => exact ⟨hc.names hp.1 ▸ hm, failed⟩

/-! ## Errors -/

/-- An evaluation fails in a way that was foreseen. -/
theorem Expr.Evaluates.foreseen {e : Expr} {m m' : Memory} {r : Except EvalError Value}
    {err : EvalError} (h : e.Evaluates m r m') (he : e.Checked) (hr : r = .error err) :
    err.Foreseen := by
  induction h with
  | constant => cases hr
  | reduce hnone hx _ ih => exact ih (((Expr.reduce_eq_ok_iff he).1 hx).checked he) hr
  | fail hnone hx =>
    cases hr
    exact ((Expr.reduce_eq_error_iff he hnone).1 hx).foreseen he

theorem Expr.Tests.foreseen {e : Expr} {m m' : Memory} {r : Except EvalError Bool}
    {err : EvalError} (h : e.Tests m r m') (he : e.Checked) (hr : r = .error err) :
    err.Foreseen := by
  cases h with
  | value h => exact Value.truth_error hr
  | fail h =>
    cases hr
    exact h.foreseen he rfl

theorem Datatype.Initial.foreseen {t : Datatype} {v : Option Expr} {m m' : Memory}
    {r : Except EvalError Value} {err : EvalError} (h : t.Initial v m r m')
    (hv : Expr.OptionChecked v) (hr : r = .error err) : err.Foreseen := by
  cases h with
  | zero => cases hr
  | value h => exact h.foreseen hv hr

/-- The condition of a loop fails in a way that was foreseen. -/
theorem Stmt.Continues.foreseen {c : Stmt} {m m' : Memory} {r : Except EvalError Bool}
    {err : EvalError} (h : c.Continues m r m') (hc : c.Checked) (hr : r = .error err) :
    err.Foreseen := by
  cases h with
  | absent => cases hr
  | present id h => exact h.foreseen hc hr

/-- The errors that end a run are those of expressions, of values that cannot be
used, and of names that are declared twice. -/
theorem Phrase.Runs.foreseen {p : Phrase} {m m' : Memory} {r : Except EvalError Unit}
    {err : EvalError} (h : p.Runs m r m') (hp : p.Checked) (hr : r = .error err) :
    err.Foreseen := by
  induction h with
  | nil | nop | expression | declaration | block | ifFalse | forLoop | exit => cases hr
  | next _ _ _ ih => exact ih hp.2 hr
  | stop _ ih => exact ih hp.1 hr
  | expressionFails id he =>
    cases hr
    exact he.foreseen hp rfl
  | initialFails id hv =>
    cases hr
    exact hv.foreseen hp.2.2 rfl
  | alreadyDeclared =>
    cases hr
    simp [EvalError.Foreseen]
  | unstorable id _ _ hs =>
    cases hr
    exact Value.storable_error hs
  | blockFails id _ ih => exact ih hp hr
  | ifTrue id _ _ ih => exact ih hp.2 hr
  | ifFails id hc =>
    cases hr
    exact hc.foreseen hp.1 rfl
  | initFails id _ ih => exact ih hp.1 hr
  | loopFails id _ _ _ ih => exact ih hp.2 hr
  | again _ _ _ _ ih => exact ih hp hr
  | roundFails _ _ ih => exact ih ⟨hp.2.2, hp.2.1, trivial⟩ hr
  | testFails hc =>
    cases hr
    exact hc.foreseen hp.1 rfl

end Stepwise
