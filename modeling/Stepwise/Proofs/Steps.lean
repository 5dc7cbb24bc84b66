import Stepwise.Machine.State
import Stepwise.Proofs.Layout
import Stepwise.Proofs.Measure

/-!
# Proofs - What one step can do

The states of a run over lowered code are of two kinds: the run has ended, or it
stands at a statement that is no label, with that statement reduced so far.  Each
step from such a state reduces an expression of the active statement, or is done
with the statement and resumes at another place.

Main results:

- `State.steps_add` and `State.Halts.split`: runs can be put together and cut.
- `State.step_moves`: all that a step can do.
- `State.resume_cases`: a run resumes at a statement that is no label, or ends.
- `State.Placed.of_reaches`: every state of a run is of one of the two kinds.
-/

namespace Stepwise

/-! ## Runs -/

namespace State

variable {s t u : State} {m n : Nat} {err : EvalError}

/-- The state after a number of steps, if none of them fails. -/
def steps : Nat → State → Except EvalError State
  | 0, s => .ok s
  | n + 1, s =>
    match s.step with
    | .error err => .error err
    | .ok s' => steps n s'

@[simp] theorem steps_zero (s : State) : s.steps 0 = .ok s := rfl

theorem steps_succ (h : s.step = .ok t) (n : Nat) : steps (n + 1) s = steps n t := by
  simp [steps, h]

theorem steps_one (h : s.step = .ok t) : steps 1 s = .ok t :=
  steps_succ h 0

/-- A run goes on from where its first steps lead. -/
theorem steps_add (h : steps m s = .ok t) (n : Nat) : steps (m + n) s = steps n t := by
  induction m generalizing s with
  | zero =>
    cases h
    rw [Nat.zero_add]
  | succ m ih =>
    cases hstep : s.step with
    | error err => simp [steps, hstep] at h
    | ok s' =>
      rw [steps_succ hstep] at h
      rw [Nat.succ_add, steps_succ hstep, ih h]

/-- A run that takes at least as many steps as another one passes its end. -/
theorem steps_sub (h : steps m s = .ok t) (h' : steps n s = .ok u) (hle : m ≤ n) :
    steps (n - m) t = .ok u := by
  rw [← steps_add h, Nat.add_sub_cancel' hle, h']

/-- A state that some number of steps leads to. -/
def Reaches (s t : State) : Prop :=
  ∃ n, steps n s = .ok t

theorem Reaches.refl (s : State) : Reaches s s := ⟨0, rfl⟩

theorem Reaches.trans (h : Reaches s t) (h' : Reaches t u) : Reaches s u := by
  obtain ⟨m, hm⟩ := h
  obtain ⟨n, hn⟩ := h'
  exact ⟨m + n, by rw [steps_add hm, hn]⟩

theorem Reaches.single (h : s.step = .ok t) : Reaches s t := ⟨1, steps_one h⟩

/-- What holds at first and is kept by every step holds of all states of a run. -/
theorem Reaches.induct {P : State → Prop} (h : Reaches s t) (hs : P s)
    (hstep : ∀ t u, P t → t.step = .ok u → P u) : P t := by
  obtain ⟨n, hn⟩ := h
  induction n generalizing s with
  | zero =>
    cases hn
    exact hs
  | succ n ih =>
    cases hst : s.step with
    | error err => simp [steps, hst] at hn
    | ok s' => exact ih (hstep s s' hs hst) (by rwa [steps_succ hst] at hn)

/-- The same, where a step may use that it is taken in a state of the run. -/
theorem Reaches.induct_along {P : State → Prop} (h : Reaches s t) (hs : P s)
    (hstep : ∀ t u, Reaches s t → P t → t.step = .ok u → P u) : P t := by
  refine (h.induct (P := fun t => Reaches s t ∧ P t) ⟨.refl s, hs⟩ ?_).2
  rintro t u ⟨ht, hp⟩ hu
  exact ⟨ht.trans (.single hu), hstep t u ht hp hu⟩

/-- A run that ends after a number of steps, where the next step fails. -/
def Halts (n : Nat) (s t : State) (err : EvalError) : Prop :=
  steps n s = .ok t ∧ t.step = .error err

/-- A run that comes to an end passes every state on the way, and ends after it. -/
theorem Halts.split (h : Halts n s t err) (hu : steps m s = .ok u) :
    m ≤ n ∧ Halts (n - m) u t err := by
  rcases Nat.lt_or_ge n m with hlt | hle
  · obtain ⟨k, hk⟩ : ∃ k, m - n = k + 1 := ⟨m - n - 1, by omega⟩
    have hend := steps_sub h.1 hu (Nat.le_of_lt hlt)
    rw [hk] at hend
    simp [steps, h.2] at hend
  · exact ⟨hle, steps_sub hu h.1 hle, h.2⟩

/-- There is one end of a run. -/
theorem Halts.unique {err' : EvalError} (h : Halts n s t err) (h' : Halts m s u err') :
    t = u ∧ err = err' := by
  obtain ⟨hmn, hsplit⟩ := h.split h'.1
  obtain ⟨hnm, -⟩ := h'.split h.1
  have hm : n - m = 0 := by omega
  obtain ⟨htu, herr⟩ := hsplit
  rw [hm, steps_zero, Except.ok.injEq] at htu
  subst htu
  rw [h'.2, Except.error.injEq] at herr
  exact ⟨rfl, herr.symm⟩

/-- A run takes a number of steps or comes to an end before. -/
theorem steps_or_halts (s : State) (n : Nat) :
    (∃ t, steps n s = .ok t) ∨ ∃ m < n, ∃ t err, Halts m s t err := by
  induction n with
  | zero => exact .inl ⟨s, rfl⟩
  | succ n ih =>
    rcases ih with ⟨t, ht⟩ | ⟨m, hm, hend⟩
    · cases hstep : t.step with
      | error err => exact .inr ⟨n, Nat.lt_succ_self n, t, err, ht, hstep⟩
      | ok u => exact .inl ⟨u, by rw [steps_add ht, steps_one hstep]⟩
    · exact .inr ⟨m, Nat.lt_succ_of_lt hm, hend⟩

/-- A run that comes to an end within a number of steps. -/
def Stops (n : Nat) (s : State) : Prop :=
  ∃ k ≤ n, ∃ t err, Halts k s t err

/-- A run that halts after some steps stops. -/
theorem Halts.stops (h : Halts n s t err) : Stops n s := ⟨n, Nat.le_refl n, t, err, h⟩

/-- A run that stops goes on with fewer steps. -/
theorem Stops.step (h : Stops n s) (hs : s.step = .ok t) : ∃ k < n, Stops k t := by
  obtain ⟨k, hk, u, err, hu⟩ := h
  obtain ⟨hle, hsplit⟩ := hu.split (steps_one hs)
  exact ⟨k - 1, by omega, hsplit.stops⟩

/-- A run that stops goes on to stop. -/
theorem Stops.reaches (h : Stops n s) (hs : Reaches s t) : Stops n t := by
  obtain ⟨k, hk, u, err, hu⟩ := h
  obtain ⟨m, hm⟩ := hs
  exact ⟨k - m, by omega, u, err, (hu.split hm).2⟩

/-! ## Places of lowered code -/

variable {w : List Stmt} {i j : Nat} {st st' : Stmt} {l : Label} {env : Env} {out : String}
  {sup : Supply}

/-- The state that stands at a place of lowered code, with an active statement. -/
def standing (w : List Stmt) (i : Nat) (st : Stmt) (env : Env) (out : String) (sup : Supply) :
    State :=
  ⟨w.map .filled, i, .filled st, env, out, sup⟩

/-- The state at the end of lowered code. -/
def ended (w : List Stmt) (env : Env) (out : String) (sup : Supply) : State :=
  ⟨w.map .filled, w.length, .empty, env, out, sup⟩

/-- The state that goes on with the first statement from a place on that is no
label. -/
def resume (w : List Stmt) (i : Nat) (env : Env) (out : String) (sup : Supply) : State :=
  moveTo ⟨w.map .filled, 0, .empty, env, out, sup⟩ i

@[simp] theorem resume_env : (resume w i env out sup).env = env := rfl

@[simp] theorem resume_output : (resume w i env out sup).output = out := rfl

/-- A run resumes at a statement of its code. -/
theorem resume_active_mem (h : (resume w i env out sup).active = .filled st) : st ∈ w := by
  simp only [resume, moveTo, List.getD_eq_getElem?_getD, List.getElem?_map] at h
  cases hget : w[skipLabels (w.map .filled) i]? with
  | none => simp [hget] at h
  | some st' =>
    simp only [hget, Option.map_some, Option.getD_some, Slot.filled.injEq] at h
    exact h ▸ List.mem_of_getElem? hget

theorem skipLabels_label (h : w[i]? = some (.label l)) :
    skipLabels (w.map .filled) i = skipLabels (w.map .filled) (i + 1) := by
  obtain ⟨hi, hl⟩ := List.getElem?_eq_some_iff.1 h
  rw [skipLabels, ← List.map_drop, List.drop_eq_getElem_cons hi, hl, List.map_cons,
    List.takeWhile_cons_of_pos rfl, List.length_cons, skipLabels, List.map_drop]
  omega

theorem skipLabels_of_not_label (h : w[i]? = some st) (hst : st.isLabel = false) :
    skipLabels (w.map .filled) i = i := by
  obtain ⟨hi, hl⟩ := List.getElem?_eq_some_iff.1 h
  rw [skipLabels, ← List.map_drop, List.drop_eq_getElem_cons hi, hl]
  simp [Slot.isLabel, hst]

theorem skipLabels_end (h : w.length ≤ i) : skipLabels (w.map .filled) i = i := by
  rw [skipLabels, List.drop_eq_nil_of_le (by simpa using h)]
  rfl

/-- What labels keep is kept by passing over them. -/
theorem skipLabels_induct {P : Nat → Prop} (hi : P i)
    (hlabel : ∀ j l, w[j]? = some (.label l) → P j → P (j + 1)) :
    P (skipLabels (w.map .filled) i) := by
  obtain ⟨k, hk⟩ : ∃ k, w.length - i = k := ⟨_, rfl⟩
  induction k generalizing i with
  | zero => rwa [skipLabels_end (by omega)]
  | succ k ih =>
    have hlt : i < w.length := by omega
    have hst := List.getElem?_eq_getElem hlt
    cases hw : w[i] with
    | label l =>
      rw [hw] at hst
      rw [skipLabels_label hst]
      exact ih (hlabel i l hst hi) (by omega)
    | _ => rwa [skipLabels_of_not_label hst (by rw [hw]; rfl)]

/-- A label is passed over. -/
theorem resume_label (h : w[i]? = some (.label l)) :
    resume w i env out sup = resume w (i + 1) env out sup := by
  simp only [resume, moveTo, skipLabels_label h]

/-- A statement that is no label becomes the active one. -/
theorem resume_of_not_label (h : w[i]? = some st) (hst : st.isLabel = false) :
    resume w i env out sup = standing w i st env out sup := by
  simp [resume, moveTo, standing, skipLabels_of_not_label h hst, List.getD, h]

/-- A run that resumes at the end of the code has ended. -/
theorem resume_end : resume w w.length env out sup = ended w env out sup := by
  simp [resume, moveTo, ended, skipLabels_end, List.getD]

/-- A run that has ended is done. -/
theorem ended_done : (ended w env out sup).done = true := by
  simp [ended, done]

/-- A run at a place is not done. -/
theorem standing_done (h : i < w.length) : (standing w i st env out sup).done = false := by
  simpa [standing, done] using h

/-- A state that has ended stands at no statement. -/
theorem ended_current : (ended w env out sup).current = .empty := by
  simp [current, ended]

/-- A state at a place stands at the statement there. -/
theorem standing_current {st₀ : Stmt} (h : w[i]? = some st₀) :
    (standing w i st env out sup).current = .filled st₀ := by
  simp [current, standing, h]

/-- A run that is done takes no step. -/
theorem step_of_done (h : s.done = true) : s.step = .error .terminated := by
  simp [step, h]

theorem ended_step : (ended w env out sup).step = .error .terminated :=
  step_of_done ended_done

/-- A state at a place performs the step of its active statement. -/
theorem standing_step (h : i < w.length) :
    (standing w i st env out sup).step = (standing w i st env out sup).stepStmt st := by
  rw [step, standing_done h]
  rfl

end State

/-! ## Statements that are reduced -/

/-- A statement around an expression that is reduced in it. -/
inductive Frame where
  | expression
  | declaration (t : Datatype) (x : Identifier)
  | condJump (onTrue onFalse : Label) (origin : Stmt)

/-- A frame around an expression. -/
def Frame.fill (frame : Frame) (id : NodeId) (e : Expr) : Stmt :=
  match frame with
  | .expression => .expression id (some e)
  | .declaration t x => .declaration id t x (some e)
  | .condJump t f o => .condJump id e t f o

@[simp] theorem Frame.isLabel_fill (frame : Frame) (id : NodeId) (e : Expr) :
    (frame.fill id e).isLabel = false := by
  cases frame <;> rfl

@[simp] theorem Frame.id_fill (frame : Frame) (id : NodeId) (e : Expr) :
    (frame.fill id e).id = id := by
  cases frame <;> rfl

/-- A statement is a frame around an expression in one way only. -/
theorem Frame.fill_inj {frame frame' : Frame} {id id' : NodeId} {e e' : Expr}
    (h : frame.fill id e = frame'.fill id' e') : frame = frame' ∧ id = id' ∧ e = e' := by
  cases frame <;> cases frame' <;> simp_all [Frame.fill]

/-- Whether a frame can be built again around another expression: only the datatype of a
declaration is checked. -/
def Frame.Declarable : Frame → Prop
  | .declaration t _ => t.declarable = true
  | _ => True

/-- A checked declaration has a type that can be declared. -/
theorem Stmt.Checked.declarable {frame : Frame} {id : NodeId} {e : Expr}
    (h : (frame.fill id e).Checked) : frame.Declarable := by
  cases frame with
  | declaration t x => exact h.1
  | _ => trivial

/-- The expression of a checked statement is checked. -/
theorem Stmt.Checked.of_fill {frame : Frame} {id : NodeId} {e : Expr}
    (h : (frame.fill id e).Checked) : e.Checked := by
  cases frame with
  | expression => exact h
  | declaration t x => exact h.2.2
  | condJump t f o => exact h.1

/-- A checked statement stays checked around another checked expression. -/
theorem Stmt.Checked.refill {frame : Frame} {id : NodeId} {e e' : Expr}
    (h : (frame.fill id e).Checked) (he : e'.Checked) (id' : NodeId) :
    (frame.fill id' e').Checked := by
  cases frame with
  | expression => exact he
  | declaration t x => exact ⟨h.1, h.2.1, he⟩
  | condJump t f o => exact ⟨he, h.2⟩

namespace State

variable {w : List Stmt} {i j : Nat} {st st' : Stmt} {l : Label} {env : Env} {out : String}
  {sup : Supply} {s t u : State}

/-- What a checked expression was reduced to is put back into its frame. -/
theorem stepStmt_fill {frame : Frame} {id : NodeId} {e : Expr} {x : Reduction}
    (hf : frame.Declarable) (hc : e.Checked) (he : e.constant? = none)
    (hx : e.reduce s.env s.supply = .ok (x, sup)) :
    s.stepStmt (frame.fill id e) = .ok { s with
      active := .filled (frame.fill sup.node x.expr), env := x.env
      output := s.output ++ x.output, supply := sup.next } := by
  have hx' := ((Expr.reduce_eq_ok_iff hc).1 hx).checked hc
  cases frame with
  | expression =>
    simp only [Frame.fill, stepStmt, he, reduceIn, hx, Stmt.withValue_expression_apply id _ hx']
  | declaration t y =>
    simp only [Frame.fill, stepStmt, he, reduceIn, hx,
      Stmt.withValue_declaration_apply id y _ hf hx']
  | condJump t f o =>
    simp only [Frame.fill, stepStmt, he, reduceIn, hx,
      Stmt.withCondition_condJump_apply id e t f o hx']

/-- A statement is built again around what its expression was reduced to, or the step
fails. -/
theorem stepStmt_fill_eq_ok {frame : Frame} {id : NodeId} {e : Expr} {x : Reduction}
    (he : e.constant? = none) (hx : e.reduce s.env s.supply = .ok (x, sup))
    (h : s.stepStmt (frame.fill id e) = .ok t) :
    t = { s with
      active := .filled (frame.fill sup.node x.expr), env := x.env
      output := s.output ++ x.output, supply := sup.next } := by
  have hfilled := Expr.expr_of_reduce hx
  cases frame with
  | expression =>
    simp only [Frame.fill, stepStmt, he, reduceIn, hx, Stmt.withValue, hfilled,
      Build.expression_apply, Except.ok.injEq] at h
    exact h.symm
  | declaration ty y =>
    simp only [Frame.fill, stepStmt, he, reduceIn, hx, Stmt.withValue, hfilled] at h
    cases hd : Build.declaration ty (.ident y) (.filled (.expr x.expr)) sup with
    | error err => simp [hd] at h
    | ok p =>
      obtain ⟨hst, hsup⟩ := Build.declaration_eq_ok hd
      simp only [hd, Except.ok.injEq] at h
      rw [← h, hst, hsup]
      rfl
  | condJump onTrue onFalse o =>
    simp only [Frame.fill, stepStmt, he, reduceIn, hx, Stmt.withCondition, hfilled,
      Build.condJump_apply, Except.ok.injEq] at h
    exact h.symm

/-- A statement fails when the reduction of its expression does. -/
theorem stepStmt_fill_error {frame : Frame} {id : NodeId} {e : Expr} {err : EvalError}
    (he : e.constant? = none) (hx : e.reduce s.env s.supply = .error err) :
    s.stepStmt (frame.fill id e) = .error err := by
  cases frame <;> simp only [Frame.fill, stepStmt, he, reduceIn, hx]

/-- The step of a statement whose expression is not evaluated yet. -/
theorem step_fill (h : i < w.length) {frame : Frame} {id : NodeId} {e : Expr} {x : Reduction}
    {sup' : Supply} (hf : frame.Declarable) (hc : e.Checked) (he : e.constant? = none)
    (hx : e.reduce env sup = .ok (x, sup')) :
    (standing w i (frame.fill id e) env out sup).step =
      .ok (standing w i (frame.fill sup'.node x.expr) x.env (out ++ x.output) sup'.next) := by
  rw [standing_step h]
  exact stepStmt_fill hf hc he hx

/-- A step fails when the reduction of the expression does. -/
theorem step_fill_error (h : i < w.length) (frame : Frame) (id : NodeId) {e : Expr}
    {err : EvalError} (he : e.constant? = none) (hx : e.reduce env sup = .error err) :
    (standing w i (frame.fill id e) env out sup).step = .error err := by
  rw [standing_step h]
  exact stepStmt_fill_error he hx

/-- An expression statement that is evaluated has nothing left to do. -/
theorem step_expression (h : i < w.length) (id : NodeId) (c : Constant) :
    (standing w i (.expression id (some (.constant c))) env out sup).step =
      .ok (resume w (i + 1) env out sup) := by
  rw [standing_step h]
  rfl

/-- An empty statement does nothing. -/
theorem step_nop (h : i < w.length) (id : NodeId) :
    (standing w i (.expression id none) env out sup).step =
      .ok (resume w (i + 1) env out sup) := by
  rw [standing_step h]
  rfl

/-- A conditional jump whose condition is evaluated goes to one of its labels. -/
theorem step_condJump (h : i < w.length) (id : NodeId) (c : Constant) (onTrue onFalse : Label)
    (o : Stmt) :
    (standing w i (.condJump id (.constant c) onTrue onFalse o) env out sup).step =
      match c.value.truth with
      | .error err => .error err
      | .ok b =>
        (standing w i (.condJump id (.constant c) onTrue onFalse o) env out sup).jumpTo
          (if b then onTrue else onFalse) := by
  rw [standing_step h]
  rfl

/-- A declaration without an initial value declares the zero of its type. -/
theorem step_declaration_none (h : i < w.length) (id : NodeId) (t : Datatype) (x : Identifier) :
    (standing w i (.declaration id t x none) env out sup).step =
      (standing w i (.declaration id t x none) env out sup).declareChecked x.name
        (.ok (.zero t)) := by
  rw [standing_step h]
  rfl

/-- A declaration of a constant declares its value. -/
theorem step_declaration (h : i < w.length) (id : NodeId) (t : Datatype) (x : Identifier)
    (c : Constant) :
    (standing w i (.declaration id t x (some (.constant c))) env out sup).step =
      (standing w i (.declaration id t x (some (.constant c))) env out sup).declareChecked x.name
        (initialValue x.name c.value) := by
  rw [standing_step h]
  rfl

/-- The step of a declaration whose initial value is known. -/
theorem step_declareChecked {x : Identifier} (value : Except EvalError Value) :
    (standing w i st env out sup).declareChecked x.name value =
      if x.name ∈ env.names then .error (.alreadyDeclared x.name)
      else
        match value with
        | .error err => .error err
        | .ok v =>
          .ok (resume w (i + 1) (env.insert x.name ⟨sup.node, v⟩) out sup.next) := by
  simp only [declareChecked, standing, Env.contains_iff_mem_names]
  rfl

/-- The step of an undeclaration of a name in scope. -/
theorem step_undeclaration (h : i < w.length) (id : NodeId) {x : Identifier}
    (hx : x.name ∈ env.names) :
    (standing w i (.undeclaration id x) env out sup).step =
      .ok (resume w (i + 1) (env.erase x.name) out sup) := by
  rw [standing_step h]
  simp only [stepStmt, standing, Env.unbind?_of_mem hx]
  rfl

/-- A jump goes to the place of its label. -/
theorem jumpTo_eq (hu : UniqueLabels w) (hl : w[j]? = some (.label l)) :
    (standing w i st env out sup).jumpTo l = .ok (resume w j env out sup) := by
  have hfind : (w.map Slot.filled).findIdx? (holdsLabel l) = some j := by
    obtain ⟨hj, hjl⟩ := List.getElem?_eq_some_iff.1 hl
    rw [List.findIdx?_eq_some_iff_getElem]
    refine ⟨by simpa using hj, by simp [hjl, holdsLabel], ?_⟩
    intro k hk hholds
    have hkw : k < w.length := by omega
    rw [List.getElem_map] at hholds
    cases hst : w[k] with
    | label l' =>
      rw [hst] at hholds
      have hk' : w[k]? = some (.label l') := by rw [List.getElem?_eq_getElem hkw, hst]
      have := hu hk' hl (by simpa [holdsLabel] using hholds)
      omega
    | _ =>
      rw [hst] at hholds
      simp [holdsLabel] at hholds
  simp only [jumpTo, standing, hfind]
  rfl

/-! ## All that a step can do -/

/-- What a step does at a place with an active statement: an expression of the
statement is reduced, or the statement is done with and the run resumes at another
place. -/
inductive Moves (w : List Stmt) (i : Nat) (env : Env) (out : String) (sup : Supply) :
    Stmt → State → Prop
  | reduce {e : Expr} {x : Reduction} {sup' : Supply} (frame : Frame) (id : NodeId) :
      e.constant? = none → e.reduce env sup = .ok (x, sup') →
      Moves w i env out sup (frame.fill id e)
        (standing w i (frame.fill sup'.node x.expr) x.env (out ++ x.output) sup'.next)
  | advance (id : NodeId) (v : Option Expr) :
      Moves w i env out sup (.expression id v) (resume w (i + 1) env out sup)
  | declare {x : Identifier} (id : NodeId) (t : Datatype) (v : Option Expr) (value : Value) :
      x.name ∉ env.names →
      Moves w i env out sup (.declaration id t x v)
        (resume w (i + 1) (env.insert x.name ⟨sup.node, value⟩) out sup.next)
  | undeclare {x : Identifier} (id : NodeId) : x.name ∈ env.names →
      Moves w i env out sup (.undeclaration id x)
        (resume w (i + 1) (env.erase x.name) out sup)
  | jump {st : Stmt} {l l' : Label} {j : Nat} :
      l ∈ st.targets → w[j]? = some (.label l') → l'.id = l.id →
      Moves w i env out sup st (resume w j env out sup)

/-- A jump that succeeds has found a place of its label. -/
private theorem jumpTo_moves (hl : l ∈ st.targets)
    (h : (standing w i st' env out sup).jumpTo l = .ok s) : Moves w i env out sup st s := by
  simp only [jumpTo, standing] at h
  split at h
  · rename_i j hfind
    obtain ⟨hj, hholds, -⟩ := List.findIdx?_eq_some_iff_getElem.1 hfind
    rw [List.length_map] at hj
    rw [List.getElem_map] at hholds
    cases hst : w[j] with
    | label l' =>
      rw [hst] at hholds
      cases h
      refine .jump hl (?_ : w[j]? = some (.label l')) (by simpa [holdsLabel] using hholds)
      rw [List.getElem?_eq_getElem hj, hst]
    | _ =>
      rw [hst] at hholds
      simp [holdsLabel] at hholds
  · cases h

/-- A reduction is a move. -/
private theorem reduceIn_moves {e : Expr} (frame : Frame) (id : NodeId)
    (he : e.constant? = none) (hi : i < w.length)
    (h : (standing w i (frame.fill id e) env out sup).step = .ok s) :
    Moves w i env out sup (frame.fill id e) s := by
  cases hx : e.reduce env sup with
  | error err =>
    rw [step_fill_error hi frame id he hx] at h
    cases h
  | ok p =>
    obtain ⟨x, sup'⟩ := p
    rw [standing_step hi] at h
    obtain rfl := stepStmt_fill_eq_ok he hx h
    exact .reduce frame id he hx

/-- A declaration that succeeds is a move. -/
private theorem declareChecked_moves {x : Identifier} {value : Except EvalError Value}
    (id : NodeId) (t : Datatype) (v : Option Expr)
    (h : (standing w i st env out sup).declareChecked x.name value = .ok s) :
    Moves w i env out sup (.declaration id t x v) s := by
  rw [step_declareChecked] at h
  split at h
  · cases h
  · rename_i hx
    cases value with
    | error err => cases h
    | ok value =>
      cases h
      exact .declare id t v value hx

/-- A step from a place does one of the things a step can do. -/
theorem step_moves (hi : i < w.length)
    (h : (standing w i st env out sup).step = .ok s) :
    Moves w i env out sup st s := by
  cases st with
  | expression id v =>
    rcases v with - | e
    · rw [step_nop hi] at h
      cases h
      exact .advance id none
    · cases hc : e.constant? with
      | none => exact reduceIn_moves .expression id hc hi h
      | some c =>
        obtain rfl := Expr.constant?_eq_some_iff.1 hc
        rw [step_expression hi] at h
        cases h
        exact .advance id _
  | declaration id t x v =>
    rcases v with - | e
    · rw [step_declaration_none hi] at h
      exact declareChecked_moves id t none h
    · cases hc : e.constant? with
      | none => exact reduceIn_moves (.declaration t x) id hc hi h
      | some c =>
        obtain rfl := Expr.constant?_eq_some_iff.1 hc
        rw [step_declaration hi] at h
        exact declareChecked_moves id t _ h
  | undeclaration id x =>
    by_cases hx : x.name ∈ env.names
    · rw [step_undeclaration hi id hx] at h
      cases h
      exact .undeclare id hx
    · rw [standing_step hi] at h
      simp [stepStmt, standing, Env.unbind?, Env.contains_eq_false_iff.2 hx] at h
  | jump id target =>
    rw [standing_step hi] at h
    exact jumpTo_moves (by simp [Stmt.targets]) h
  | condJump id c t f o =>
    cases hc : c.constant? with
    | none => exact reduceIn_moves (.condJump t f o) id hc hi h
    | some k =>
      obtain rfl := Expr.constant?_eq_some_iff.1 hc
      rw [step_condJump hi] at h
      cases hb : k.value.truth with
      | error err => simp [hb] at h
      | ok b =>
        simp only [hb] at h
        exact jumpTo_moves (by cases b <;> simp [Stmt.targets]) h
  | _ =>
    rw [standing_step hi] at h
    cases h

/-! ## The states of a run -/

/-- The active statement at a place is the statement there, or the same kind of
statement around an expression it was reduced to. -/
inductive Progress : Stmt → Stmt → Prop
  | start (st : Stmt) : Progress st st
  | refill (frame : Frame) (id id' : NodeId) (e e' : Expr) :
      Progress (frame.fill id e) (frame.fill id' e')

/-- The states of a run over lowered code: the run has ended, or it stands at a
statement that is no label. -/
inductive Placed (w : List Stmt) : State → Prop
  | ended (env : Env) (out : String) (sup : Supply) : Placed w (State.ended w env out sup)
  | standing {i : Nat} {st st' : Stmt} (env : Env) (out : String) (sup : Supply) :
      w[i]? = some st → st.isLabel = false → Progress st st' → st'.Checked →
      Placed w (State.standing w i st' env out sup)

/-- A run resumes at a statement that is no label, or it ends. -/
theorem resume_cases (env : Env) (out : String) (sup : Supply) (hi : i ≤ w.length) :
    resume w i env out sup = ended w env out sup ∨
      ∃ j st, w[j]? = some st ∧ st.isLabel = false ∧
        resume w i env out sup = standing w j st env out sup := by
  obtain ⟨k, hk⟩ : ∃ k, w.length - i = k := ⟨_, rfl⟩
  induction k generalizing i with
  | zero =>
    obtain rfl : i = w.length := by omega
    exact .inl resume_end
  | succ k ih =>
    have hst := List.getElem?_eq_getElem (l := w) (i := i) (by omega)
    cases hw : w[i] with
    | label l =>
      rw [hw] at hst
      rw [resume_label hst]
      exact ih (by omega) (by omega)
    | _ =>
      have hl : w[i].isLabel = false := by rw [hw]; rfl
      exact .inr ⟨i, w[i], hst, hl, resume_of_not_label hst hl⟩

/-- A run that resumes in checked code has ended or stands at a place. -/
theorem resume_placed (hw : Stmt.AllChecked w) (env : Env) (out : String) (sup : Supply)
    (hi : i ≤ w.length) : Placed w (resume w i env out sup) := by
  rcases resume_cases env out sup hi with h | ⟨j, st, hst, hl, h⟩
  · rw [h]
    exact .ended env out sup
  · rw [h]
    exact .standing env out sup hst hl (.start st)
      (Stmt.allChecked_iff.1 hw st (List.mem_of_getElem? hst))

/-- The active statement makes progress when an expression in it is reduced. -/
theorem Progress.fill {frame : Frame} {id : NodeId} {e : Expr} (h : Progress st (frame.fill id e))
    (id' : NodeId) (e' : Expr) : Progress st (frame.fill id' e') := by
  generalize hst : frame.fill id e = st' at h
  cases h with
  | start =>
    subst hst
    exact .refill frame id id' e e'
  | refill frame' k k' d d' =>
    obtain ⟨rfl, -, -⟩ := Frame.fill_inj hst
    exact .refill frame k id' d e'

/-- A run takes a step only from a place of its code. -/
theorem Placed.moves (h : Placed w s) (hs : s.step = .ok t) :
    ∃ i st st' env out sup, s = State.standing w i st' env out sup ∧ w[i]? = some st ∧
      st.isLabel = false ∧ Progress st st' ∧ st'.Checked ∧ Moves w i env out sup st' t := by
  cases h with
  | ended env out sup =>
    rw [ended_step] at hs
    cases hs
  | @standing i st st' env out sup hst hl hp hc =>
    have hi := (List.getElem?_eq_some_iff.1 hst).1
    exact ⟨i, st, st', env, out, sup, rfl, hst, hl, hp, hc, step_moves hi hs⟩

/-- A step keeps a run at places of its code. -/
theorem Placed.step (hw : Stmt.AllChecked w) (h : Placed w s) (hs : s.step = .ok t) :
    Placed w t := by
  obtain ⟨i, st, st', env, out, sup, rfl, hst, hl, hp, hc, hmoves⟩ := h.moves hs
  have hi := (List.getElem?_eq_some_iff.1 hst).1
  cases hmoves with
  | reduce frame id he hx =>
    have hred := (Expr.reduce_eq_ok_iff hc.of_fill).1 hx
    exact .standing _ _ _ hst hl (hp.fill _ _) (hc.refill (hred.checked hc.of_fill) _)
  | advance id v => exact resume_placed hw _ _ _ hi
  | declare id t v value hx => exact resume_placed hw _ _ _ hi
  | undeclare id hx => exact resume_placed hw _ _ _ hi
  | jump hl hj hid =>
    exact resume_placed hw _ _ _ (Nat.le_of_lt (List.getElem?_eq_some_iff.1 hj).1)

/-- Every state of a run over lowered code has ended or stands at a place. -/
theorem Placed.of_reaches (hw : Stmt.AllChecked w) (h : Reaches (init (w.map .filled) sup) s) :
    Placed w s :=
  h.induct (resume_placed hw _ _ _ (Nat.zero_le _)) fun _ _ => Placed.step hw

/-- A run is done when it has ended. -/
theorem Placed.done_iff (h : Placed w s) :
    s.done = true ↔ s = State.ended w s.env s.output s.supply := by
  cases h with
  | ended env out sup => exact iff_of_true ended_done rfl
  | standing env out sup hst =>
    rw [standing_done (List.getElem?_eq_some_iff.1 hst).1]
    exact iff_of_false (by simp) (by simp [State.standing, State.ended])

/-- A run that is not done stands at a statement. -/
theorem Placed.exists_current (h : Placed w s) (hdone : s.done = false) :
    ∃ st, s.current = .filled st := by
  cases h with
  | ended env out sup =>
    rw [ended_done] at hdone
    cases hdone
  | standing env out sup hst => exact ⟨_, standing_current hst⟩

end State

end Stepwise
