import Stepwise.Proofs.Simulation
import Stepwise.Syntax.Update

/-!
# Proofs - Runs of lowered programs

A checked program that can be lowered is run by the machine just as the
structured interpretation runs it: both finish with the same memory, both fail
with the same error in the same memory, or neither comes to an end.  It follows
that the machine never gets stuck on lowered code for a reason of its own.

Main results:

- `lower_follows`: lowering preserves meaning.
- `lowered_step_safe`: the errors of the machine on lowered code.
-/

namespace Stepwise

open State

/-! ## What the machine does with a program -/

/-- From a state the machine does what the interpretation of a phrase does from
the empty memory. -/
structure Follows (s : State) (p : Phrase) : Prop where
  /-- Both finish, in the same memory. -/
  finishes : ∀ m, p.Runs .empty (.ok ()) m ↔
    ∃ n t, steps n s = .ok t ∧ t.done = true ∧ t.memory = m
  /-- Both fail, with the same error and in the same memory. -/
  fails : ∀ err m, p.Runs .empty (.error err) m ↔
    ∃ n t, steps n s = .ok t ∧ t.done = false ∧ t.step = .error err ∧ t.memory = m
  /-- Neither comes to an end. -/
  diverges : (¬∃ r m, p.Runs .empty r m) ↔ ∀ n, ∃ t, steps n s = .ok t ∧ t.done = false

section Runs

variable {tree code : List Stmt} {s s' start : Supply} {r : Except EvalError Unit} {m : Memory}
  {n : Nat} {t : State} {err : EvalError}

/-- How a run of the machine ends that follows a run of the interpretation. -/
def EndsLike (r : Except EvalError Unit) (t : State) (err : EvalError) : Prop :=
  r = .ok () ∧ t.done = true ∨ r = .error err ∧ t.done = false

/-- The machine ends where the interpretation of the program ends. -/
theorem halts_of_runs (htree : Stmt.AllChecked tree)
    (hlower : Stmt.lowerAll tree s = .ok (code, s')) (h : (Phrase.all tree).Runs .empty r m) :
    ∃ n t err, Halts n (init (code.map .filled) start) t err ∧ EndsLike r t err ∧
      t.memory = m := by
  obtain ⟨hl, hd⟩ := Stmt.lowerAll_layout hlower
  have hstart : At code 0 .empty (init (code.map .filled) start) := ⟨.empty, start, rfl, rfl⟩
  have hends := h.ends hd.uniqueLabels hl (standsAt_self code) htree (by simp [Memory.empty,
    Memory.names]) hstart
  cases hends with
  | @answers t _ _ hst hat =>
    obtain ⟨n, hn⟩ := hst
    have hdone : t.done = true := by
      obtain ⟨env, sup, rfl, -⟩ := hat
      rw [Nat.zero_add, resume_end, ended_done]
    exact ⟨n, t, _, ⟨hn, step_of_done hdone⟩, .inl ⟨rfl, hdone⟩, hat.memory⟩
  | @fails t err _ hst herr hm =>
    obtain ⟨n, hn⟩ := hst
    refine ⟨n, t, err, ⟨hn, herr⟩, .inr ⟨rfl, ?_⟩, hm⟩
    have hforeseen := h.foreseen htree rfl
    cases hdone : t.done with
    | false => rfl
    | true =>
      rw [step_of_done hdone] at herr
      cases herr
      simp [EvalError.Foreseen, EvalError.errorClass] at hforeseen

/-- The interpretation of the program ends where the machine ends. -/
theorem runs_of_halts (htree : Stmt.AllChecked tree)
    (hlower : Stmt.lowerAll tree s = .ok (code, s'))
    (h : Halts n (init (code.map .filled) start) t err) :
    ∃ r, (Phrase.all tree).Runs .empty r t.memory ∧ EndsLike r t err := by
  obtain ⟨hl, hd⟩ := Stmt.lowerAll_layout hlower
  have hstart : At code 0 .empty (init (code.map .filled) start) := ⟨.empty, start, rfl, rfl⟩
  obtain ⟨r, m, hrun⟩ := hl.runs hd.uniqueLabels (standsAt_self code) htree
    (by simp [Memory.empty, Memory.names]) hstart h.stops
  obtain ⟨n', t', err', hhalts, hlike, rfl⟩ := halts_of_runs htree hlower hrun
  obtain ⟨rfl, rfl⟩ := h.unique hhalts
  exact ⟨r, hrun, hlike⟩

/-- A run without an end goes on after any number of steps. -/
theorem exists_steps_of_not_halts {s : State} (h : ∀ n t err, ¬Halts n s t err) (n : Nat) :
    ∃ t, steps n s = .ok t := by
  rcases steps_or_halts s n with hn | ⟨m, -, t, err, hend⟩
  · exact hn
  · exact absurd hend (h m t err)

end Runs

/-! ## Lowering preserves meaning -/

/-- Running the lowered code of a checked program is running the program. -/
theorem lower_follows {tree code : List Stmt} {s s' : Supply} (start : Supply)
    (htree : Stmt.AllChecked tree) (hlower : lower (tree.map .filled) s = .ok (code, s')) :
    Follows (init (code.map .filled) start) (.all tree) := by
  rw [lower_filled] at hlower
  refine ⟨fun m => ⟨fun h => ?_, ?_⟩, fun err m => ⟨fun h => ?_, ?_⟩, fun h n => ?_, ?_⟩
  · obtain ⟨n, t, err, ⟨hn, -⟩, ⟨-, hdone⟩ | ⟨herr, -⟩, hm⟩ := halts_of_runs htree hlower h
    · exact ⟨n, t, hn, hdone, hm⟩
    · cases herr
  · rintro ⟨n, t, hn, hdone, rfl⟩
    obtain ⟨r, hrun, ⟨rfl, -⟩ | ⟨-, hnot⟩⟩ :=
      runs_of_halts htree hlower ⟨hn, step_of_done hdone⟩
    · exact hrun
    · rw [hdone] at hnot
      cases hnot
  · obtain ⟨n, t, err, ⟨hn, hstep⟩, ⟨hok, -⟩ | ⟨herr, hdone⟩, hm⟩ := halts_of_runs htree hlower h
    · cases hok
    · cases herr
      exact ⟨n, t, hn, hdone, hstep, hm⟩
  · rintro ⟨n, t, hn, hdone, hstep, rfl⟩
    obtain ⟨r, hrun, ⟨-, hnot⟩ | ⟨rfl, -⟩⟩ := runs_of_halts htree hlower ⟨hn, hstep⟩
    · rw [hdone] at hnot
      cases hnot
    · exact hrun
  · have hnot : ∀ n t err, ¬Halts n (init (code.map .filled) start) t err := by
      intro n t err hhalts
      obtain ⟨r, hrun, -⟩ := runs_of_halts htree hlower hhalts
      exact h ⟨r, t.memory, hrun⟩
    obtain ⟨t, ht⟩ := exists_steps_of_not_halts hnot n
    refine ⟨t, ht, ?_⟩
    by_contra hdone
    exact hnot n t _ ⟨ht, step_of_done (by simpa using hdone)⟩
  · rintro hrun ⟨r, m, h⟩
    obtain ⟨n, t, err, ⟨hn, hstep⟩, -⟩ := halts_of_runs htree hlower h
    obtain ⟨u, hu, -⟩ := hrun (n + 1)
    rw [steps_add hn] at hu
    simp [steps, hstep] at hu

/-- The program `int n = 2; for (int i = 0; i <= n; i++) { if (i == 1) printf("%d", i); }`. -/
def countingProgram : List Stmt :=
  [.declaration 1 .int ⟨2, "n"⟩ (some (.constant ⟨3, .int 2⟩)),
    .forLoop 4 (.declaration 5 .int ⟨6, "i"⟩ (some (.constant ⟨7, .int 0⟩)))
      (.expression 8 (some (.binary 9 .le (.identifier ⟨10, "i"⟩) (.identifier ⟨11, "n"⟩))))
      (.expression 12 (some (.increment 13 ⟨14, "i"⟩)))
      (.block 15 [.ifThen 16 (.binary 17 .eq (.identifier ⟨18, "i"⟩) (.constant ⟨19, .int 1⟩))
        (.expression 20 (some (.invoke 21 ⟨22, "printf"⟩
          [.constant ⟨23, .string "%d"⟩, .identifier ⟨24, "i"⟩])))])]

theorem countingProgram_checked : Stmt.AllChecked countingProgram := by
  simp [countingProgram, Identifier.Checked, Datatype.declarable, BinaryOp.known]

/-- The code of the counting program follows its interpretation. -/
theorem lower_follows_countingProgram :
    Stmt.AllChecked countingProgram ∧
      ∃ code s', lower (countingProgram.map .filled) ⟨25, 0⟩ = .ok (code, s') ∧
        Follows (init (code.map .filled) s') (.all countingProgram) :=
  ⟨countingProgram_checked, _, _, rfl, lower_follows _ countingProgram_checked rfl⟩

/-! ## Steps on lowered code -/

/-- Put a reduced expression back into a statement, through the checked
builders. -/
def Frame.rebuild (frame : Frame) (stmt value : Operand) : Build NodeError Node :=
  match frame with
  | .condJump .. => stmt.withCondition value
  | _ => stmt.withValue value

/-- The checked builders take back what an expression of a checked statement was
reduced to. -/
theorem Frame.rebuild_apply {frame : Frame} {id : NodeId} {e e' : Expr}
    (h : (frame.fill id e).Checked) (he : e'.Checked) (s : Supply) :
    frame.rebuild (.stmt (frame.fill id e)) (.expr e') s =
      .ok (.stmt (frame.fill s.node e'), s.next) := by
  rw [Operand.expr_of_checked he]
  cases frame with
  | expression => rfl
  | condJump => rfl
  | declaration t x =>
    cases t with
    | int => rfl
    | string => rfl
    | void => cases h.1
    | other => cases h.1

/-- A step that reduces in the active statement puts the result back through the
checked builders. -/
theorem State.Placed.step_rebuild {w : List Stmt} {t : State} (h : Placed w t) {frame : Frame}
    {id : NodeId} {e : Expr} {x : Reduction} {sup : Supply}
    (hactive : t.active = .filled (frame.fill id e)) (he : e.constant? = none)
    (hx : e.reduce t.env t.supply = .ok (x, sup)) :
    ∃ st sup', frame.rebuild (.stmt (frame.fill id e)) (.expr x.expr) sup = .ok (.stmt st, sup') ∧
      t.step = .ok { t with
        active := .filled st, env := x.env, output := t.output ++ x.output, supply := sup' } := by
  cases h with
  | ended env out sup => cases hactive
  | standing env out sup hst hl hp hc =>
    cases hactive
    have hred := (Expr.reduce_eq_ok_iff hc.of_fill).1 hx
    exact ⟨_, _, Frame.rebuild_apply hc (hred.checked hc.of_fill) _,
      step_fill (List.getElem?_eq_some_iff.1 hst).1 hc.declarable hc.of_fill he hx⟩

/-- A foreseen failure is of one of four classes, and none is about a scope that is left. -/
theorem EvalError.Foreseen.errorClass_mem {err : EvalError} (h : err.Foreseen) :
    err.errorClass ∈ [.undeclaredIdentifier, .alreadyDeclared, .unsupportedFunction,
      .invalidConstant] ∧ ∀ name, err ≠ .undeclared .leaving name := by
  cases err <;> simp_all [EvalError.Foreseen, EvalError.errorClass]

/-- On lowered code the machine is done exactly when it says so, it fails for
reasons that lie in the program only, and every statement it reduces in is one
that the checked builders take back. -/
theorem lowered_step_safe {tree code : List Stmt} {s s' start : Supply} {t : State}
    (htree : Stmt.AllChecked tree) (hlower : lower (tree.map .filled) s = .ok (code, s'))
    (ht : Reaches (init (code.map .filled) start) t) :
    (t.step = .error .terminated ↔ t.done = true) ∧
    (t.done = false → ∀ err, t.step = .error err →
      err.errorClass ∈ [.undeclaredIdentifier, .alreadyDeclared, .unsupportedFunction,
        .invalidConstant] ∧ ∀ name, err ≠ .undeclared .leaving name) ∧
    (∀ (frame : Frame) id e x sup, t.active = .filled (frame.fill id e) → e.constant? = none →
      e.reduce t.env t.supply = .ok (x, sup) →
      ∃ st sup', frame.rebuild (.stmt (frame.fill id e)) (.expr x.expr) sup = .ok (.stmt st, sup') ∧
        t.step = .ok { t with
          active := .filled st, env := x.env, output := t.output ++ x.output,
          supply := sup' }) := by
  rw [lower_filled] at hlower
  have hcode := (Stmt.lowerAll_layout hlower).1.checked htree
  have hforeseen : t.done = false → ∀ err, t.step = .error err → err.Foreseen := by
    intro hdone err herr
    obtain ⟨n, hn⟩ := ht
    obtain ⟨r, hrun, ⟨-, hnot⟩ | ⟨rfl, -⟩⟩ := runs_of_halts htree hlower ⟨hn, herr⟩
    · rw [hdone] at hnot
      cases hnot
    · exact hrun.foreseen htree rfl
  refine ⟨⟨fun hterminated => ?_, step_of_done⟩, fun hdone err herr => ?_, ?_⟩
  · by_contra hdone
    have := hforeseen (by simpa using hdone) _ hterminated
    simp [EvalError.Foreseen, EvalError.errorClass] at this
  · exact (hforeseen hdone err herr).errorClass_mem
  · intro frame id e x sup hactive he hx
    exact (Placed.of_reaches hcode ht).step_rebuild hactive he hx

/-- The program `{ int x; } x = 1;`, which assigns to a name that left scope. -/
def leftScopeProgram : List Stmt :=
  [.block 1 [.declaration 2 .int ⟨3, "x"⟩ none],
    .expression 4 (some (.assign 5 ⟨6, "x"⟩ (.constant ⟨7, .int 1⟩)))]

/-- The code of that program. -/
def leftScopeCode : List Stmt :=
  [.declaration 2 .int ⟨3, "x"⟩ none, .undeclaration 8 ⟨3, "x"⟩,
    .expression 4 (some (.assign 5 ⟨6, "x"⟩ (.constant ⟨7, .int 1⟩)))]

/-- After its scope was left, assigning a name fails as undeclared. -/
theorem lowered_step_safe_leftScopeProgram :
    Stmt.AllChecked leftScopeProgram ∧
      lower (leftScopeProgram.map .filled) ⟨8, 0⟩ = .ok (leftScopeCode, ⟨9, 0⟩) ∧
      ∃ t, Reaches (init (leftScopeCode.map .filled) ⟨9, 0⟩) t ∧ t.done = false ∧
        t.step = .error (.undeclared .assigning "x") ∧
        (EvalError.undeclared .assigning "x").errorClass ∈ [.undeclaredIdentifier,
          .alreadyDeclared, .unsupportedFunction, .invalidConstant] := by
  have hchecked : Stmt.AllChecked leftScopeProgram := by
    simp [leftScopeProgram, Identifier.Checked, Datatype.declarable]
  obtain ⟨t, ht, hdone, hstep⟩ : ∃ t, steps 2 (init (leftScopeCode.map .filled) ⟨9, 0⟩) = .ok t ∧
      t.done = false ∧ t.step = .error (.undeclared .assigning "x") := ⟨_, rfl, rfl, rfl⟩
  have hlower : lower (leftScopeProgram.map .filled) ⟨8, 0⟩ = .ok (leftScopeCode, ⟨9, 0⟩) := rfl
  have hsafe := lowered_step_safe hchecked hlower ⟨2, ht⟩
  exact ⟨hchecked, hlower, t, ⟨2, ht⟩, hdone, hstep, (hsafe.2.1 hdone _ hstep).1⟩

end Stepwise
