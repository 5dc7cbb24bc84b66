import Stepwise.Proofs.Steps
import Mathlib.Logic.Relation

/-!
# Proofs - The active statement of a run

Code may be written by hand: it may jump back, jump to itself, repeat a label, end
with labels or hold statements that cannot be stepped.  In every state of a run over
such code the active statement is the statement at the current place with its
expression reduced some number of times, and there is none at the end only.

Main definitions:

- `Evaluation.Step`, one reduction, which leaves the environment for the next one.
- `Stmt.SameFrame`, statements that agree in all but the expression they hold.
- `State.InOrder`, what holds of every state of a run.

Main results:

- `State.Underway.step`: a step reduces in the active statement or comes to a new one.
- `active_within_code`: every state of a run is in order.
-/

namespace Stepwise

/-! ## Expressions that are evaluated -/

/-- An expression on its way to a constant, with the environment, the text printed so
far and the supply that its next reduction finds. -/
structure Evaluation where
  expr : Expr
  env : Env
  output : String
  supply : Supply

/-- One reduction that succeeds.  One more identity is given out after it, to the
statement that is built around the result. -/
inductive Evaluation.Step : Evaluation → Evaluation → Prop
  | reduce {e : Expr} {env : Env} {out : String} {sup sup' : Supply} {x : Reduction} :
      e.reduce env sup = .ok (x, sup') →
      Step ⟨e, env, out, sup⟩ ⟨x.expr, x.env, out ++ x.output, sup'.next⟩

/-- Any number of reductions, each one in the environment that the one before left. -/
def Evaluation.Steps : Evaluation → Evaluation → Prop :=
  Relation.ReflTransGen Evaluation.Step

/-! ## The parts of a statement that is stepped -/

namespace Stmt

/-- The expression that a step of a statement reduces. -/
def expr? : Stmt → Option Expr
  | expression _ v => v
  | declaration _ _ _ v => v
  | condJump _ c _ _ _ => some c
  | _ => none

/-- The name that a statement brings into scope or takes out of it. -/
def name? : Stmt → Option Identifier
  | declaration _ _ x _ => some x
  | undeclaration _ x => some x
  | _ => none

/-- The datatype that a statement declares. -/
def datatype? : Stmt → Option Datatype
  | declaration _ t _ _ => some t
  | _ => none

/-- The statement of the source that a conditional jump tests the condition of. -/
def origin? : Stmt → Option Stmt
  | condJump _ _ _ _ o => some o
  | _ => none

/-- Two statements that agree in all but their identities and the expressions they
hold. -/
structure SameFrame (st act : Stmt) : Prop where
  variant : act.variant = st.variant
  name : act.name? = st.name?
  datatype : act.datatype? = st.datatype?
  targets : act.targets = st.targets
  origin : act.origin? = st.origin?

end Stmt

@[simp] theorem Frame.expr?_fill (frame : Frame) (id : NodeId) (e : Expr) :
    (frame.fill id e).expr? = some e := by
  cases frame <;> rfl

/-- A frame gives all but the expression and the identity. -/
theorem Frame.sameFrame_fill (frame : Frame) (id id' : NodeId) (e e' : Expr) :
    (frame.fill id e).SameFrame (frame.fill id' e') := by
  cases frame <;> exact ⟨rfl, rfl, rfl, rfl, rfl⟩

namespace State

variable {w : List Stmt} {start s t : State} {i : Nat}

/-! ## The states of a run -/

/-- The states of a run: it has ended, it has come to a statement, or an expression of
the statement it came to was reduced since. -/
inductive Underway (w : List Stmt) (start : State) : State → Prop
  | ended (env : Env) (out : String) (sup : Supply) :
      Underway w start (State.ended w env out sup)
  | entered {i : Nat} {st : Stmt} (env : Env) (out : String) (sup : Supply) :
      w[i]? = some st → st.isLabel = false →
      Underway w start (State.standing w i st env out sup)
  | reducing {i : Nat} {frame : Frame} {id : NodeId} {now : Evaluation} (first : Evaluation)
      (id' : NodeId) :
      w[i]? = some (frame.fill id first.expr) →
      Reaches start (State.standing w i (frame.fill id first.expr) first.env first.output
        first.supply) →
      first.Steps now →
      Underway w start (State.standing w i (frame.fill id' now.expr) now.env now.output
        now.supply)

/-- A run that resumes has ended or has come to a statement. -/
theorem resume_underway (start : State) (env : Env) (out : String) (sup : Supply)
    (hi : i ≤ w.length) : Underway w start (resume w i env out sup) := by
  rcases resume_cases env out sup hi with h | ⟨j, st, hst, hl, h⟩
  · rw [h]
    exact .ended env out sup
  · rw [h]
    exact .entered env out sup hst hl

/-- All moves but reductions resume at a place of the code. -/
theorem Moves.underway {st : Stmt} {env : Env} {out : String} {sup : Supply} (start : State)
    (hi : i < w.length) (h : Moves w i env out sup st t)
    (hreduce : ∀ (frame : Frame) id e x sup', st = frame.fill id e →
      e.reduce env sup = .ok (x, sup') →
      Underway w start
        (standing w i (frame.fill sup'.node x.expr) x.env (out ++ x.output) sup'.next)) :
    Underway w start t := by
  cases h with
  | reduce frame id _ hx => exact hreduce frame id _ _ _ rfl hx
  | advance id v => exact resume_underway start _ _ _ hi
  | declare id ty v value hx => exact resume_underway start _ _ _ hi
  | undeclare id hx => exact resume_underway start _ _ _ hi
  | jump hl hj hid =>
    exact resume_underway start _ _ _ (Nat.le_of_lt (List.getElem?_eq_some_iff.1 hj).1)

/-- A step reduces in the active statement, comes to a new statement or ends the run. -/
theorem Underway.step (h : Underway w start s) (hreach : Reaches start s)
    (hs : s.step = .ok t) : Underway w start t := by
  cases h with
  | ended env out sup =>
    rw [ended_step] at hs
    cases hs
  | @entered i st env out sup hst hl =>
    have hi := (List.getElem?_eq_some_iff.1 hst).1
    refine (step_moves hi hs).underway start hi ?_
    rintro frame id e x sup' rfl hx
    exact .reducing ⟨e, env, out, sup⟩ _ hst hreach (.single (.reduce hx))
  | @reducing i frame id now first id' hst hentry hsteps =>
    have hi := (List.getElem?_eq_some_iff.1 hst).1
    refine (step_moves hi hs).underway start hi ?_
    intro frame' id₂ e x sup' hfill hx
    obtain ⟨rfl, -, rfl⟩ := Frame.fill_inj hfill
    exact .reducing first _ hst hentry (.tail hsteps (.reduce hx))

/-- Every state of a run over any code is one of these. -/
theorem Underway.of_reaches {sup : Supply} (h : Reaches (init (w.map .filled) sup) s) :
    Underway w (init (w.map .filled) sup) s := by
  refine h.induct_along (resume_underway _ _ _ _ (Nat.zero_le _)) ?_
  intro t u ht hunder hstep
  exact hunder.step ht hstep

/-! ## What holds of every state -/

/-- How the active statement `act` of a state came from the statement `st` at its place:
the run came to `st` in an earlier state, and since then the expression of `st` was
reduced, each time in the environment that the reduction before left. -/
structure Reduced (start s : State) (st act : Stmt) : Prop where
  frame : st.SameFrame act
  entered : ∃ entry, Reaches start entry ∧ entry.program = s.program ∧ entry.pc = s.pc ∧
    entry.active = .filled st ∧
    (st.expr? = none → act = st ∧ s = entry) ∧
    ∀ e, st.expr? = some e → ∃ e', act.expr? = some e' ∧
      Evaluation.Steps ⟨e, entry.env, entry.output, entry.supply⟩ ⟨e', s.env, s.output, s.supply⟩

/-- A state of a run over the code `w` that began in the state `start`. -/
structure InOrder (w : List Stmt) (start s : State) : Prop where
  program : s.program = w.map .filled
  pc_le : s.pc ≤ w.length
  done_iff : s.done = true ↔ s.pc = w.length
  active_iff : s.active = .empty ↔ s.pc = w.length
  /-- Before the end the current statement is no label, and the active one is what its
  reductions have made of it. -/
  active : s.done = false → ∃ st act, w[s.pc]? = some st ∧ st.isLabel = false ∧
    s.active = .filled act ∧ Reduced start s st act

/-- A state at a place is in order when its active statement is. -/
theorem InOrder.standing {st act : Stmt} {env : Env} {out : String} {sup : Supply}
    (hst : w[i]? = some st) (hl : st.isLabel = false)
    (h : Reduced start (standing w i act env out sup) st act) :
    InOrder w start (State.standing w i act env out sup) := by
  have hi := (List.getElem?_eq_some_iff.1 hst).1
  have hne : ¬(State.standing w i act env out sup).pc = w.length := Nat.ne_of_lt hi
  refine ⟨rfl, Nat.le_of_lt hi, iff_of_false ?_ hne, iff_of_false ?_ hne, fun _ => ?_⟩
  · simp [standing_done hi]
  · simp [State.standing]
  · exact ⟨st, act, hst, hl, rfl, h⟩

/-- Every state that a run reaches is in order. -/
theorem Underway.inOrder (h : Underway w start s) (hreach : Reaches start s) :
    InOrder w start s := by
  cases h with
  | ended env out sup =>
    refine ⟨rfl, Nat.le_refl _, iff_of_true ended_done rfl, iff_of_true rfl rfl, fun hd => ?_⟩
    rw [ended_done] at hd
    cases hd
  | entered env out sup hst hl =>
    refine .standing hst hl ⟨⟨rfl, rfl, rfl, rfl, rfl⟩, _, hreach, rfl, rfl, rfl, ?_, ?_⟩
    · exact fun _ => ⟨rfl, rfl⟩
    · exact fun e he => ⟨e, he, .refl⟩
  | @reducing i frame id now first id' hst hentry hsteps =>
    refine .standing hst (frame.isLabel_fill _ _)
      ⟨frame.sameFrame_fill _ _ _ _, _, hentry, rfl, rfl, rfl, ?_, ?_⟩
    · intro hnone
      rw [Frame.expr?_fill] at hnone
      cases hnone
    · intro e he
      rw [Frame.expr?_fill, Option.some.injEq] at he
      subst he
      exact ⟨now.expr, frame.expr?_fill _ _, hsteps⟩

end State

/-- In every state of a run over any code the current place is within the code, there is
an active statement exactly before the end, and it is what reductions have made of the
statement at that place. -/
theorem active_within_code {w : List Stmt} {sup : Supply} {s : State}
    (h : State.Reaches (.init (w.map .filled) sup) s) :
    State.InOrder w (.init (w.map .filled) sup) s :=
  (State.Underway.of_reaches h).inOrder h

/-- The code `int x = 1; L: L: if x == 1 goto L else goto M; M:`, written by hand with a
label that stands twice and a last one that stands at the end. -/
def restlessCode : List Stmt :=
  [.declaration 1 .int ⟨2, "x"⟩ (some (.constant ⟨3, .int 1⟩)), .label ⟨4, "L"⟩, .label ⟨4, "L"⟩,
    .condJump 5 (.binary 6 .eq (.identifier ⟨7, "x"⟩) (.constant ⟨8, .int 1⟩)) ⟨4, "L"⟩ ⟨9, "M"⟩
      (.expression 10 none), .label ⟨9, "M"⟩]

/-- After five steps the jump was taken once and `x` in its condition was read again. -/
theorem active_within_restlessCode :
    Stmt.AllChecked restlessCode ∧
      ∃ s, State.steps 5 (.init (restlessCode.map .filled) ⟨11, 0⟩) = .ok s ∧ s.pc = 3 ∧
        State.InOrder restlessCode (.init (restlessCode.map .filled) ⟨11, 0⟩) s := by
  obtain ⟨s, hs, hpc⟩ : ∃ s, State.steps 5 (.init (restlessCode.map .filled) ⟨11, 0⟩) = .ok s ∧
      s.pc = 3 := ⟨_, rfl, rfl⟩
  refine ⟨?_, s, hs, hpc, active_within_code ⟨5, hs⟩⟩
  simp [restlessCode, Identifier.Checked, Datatype.declarable, BinaryOp.known]

end Stepwise
