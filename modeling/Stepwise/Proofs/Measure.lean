import Stepwise.Machine.State
import Stepwise.Proofs.Reduction

/-!
# Proofs - What is left to be reduced

The nodes of an expression that are no constants are still to be reduced.  Every
reduction leaves fewer of them, whether the expression was built with checks or not,
so an expression cannot be reduced for ever.  The function is followed along its text
once, which also shows that no reduction, and so no step, fails at a limit.

Main results:

- `Expr.yields_reduce`: what a reduction gives and how it can fail.
- `Expr.pending_lt_of_reduce`: a reduction leaves fewer nodes to be reduced.
- `Expr.expr_of_reduce`: a reduction never gives a hole.
- `State.step_ne_stepLimit`: a step never fails at a limit.
-/

namespace Stepwise

/-! ## Nodes still to be reduced -/

mutual

/-- The number of nodes of an expression that are no constants.  A name that is assigned,
incremented or called belongs to the node around it. -/
def Expr.pending : Expr → Nat
  | .identifier _ => 1
  | .constant _ => 0
  | .binary _ _ l r => l.pending + r.pending + 1
  | .assign _ _ v => v.pending + 1
  | .addAssign _ _ v => v.pending + 1
  | .increment _ _ => 1
  | .invoke _ _ args => Expr.pendingAll args + 1
  | .hole _ => 0

/-- The number of nodes of some expressions that are no constants. -/
def Expr.pendingAll : List Expr → Nat
  | [] => 0
  | e :: es => e.pending + Expr.pendingAll es

end

/-- An expression with fewer nodes to be reduced than a number, and that is no hole. -/
def Expr.Below (n : Nat) (e : Expr) : Prop :=
  e.pending < n ∧ Operand.expr e = .filled (.expr e)

/-! ## Computations that yield something -/

namespace Build

variable {α β : Type} {P : α → Prop} {Q : β → Prop} {b : Build EvalError α}
  {f : α → Build EvalError β}

/-- A computation whose result has a property, and that does not fail at a limit. -/
def Yields (P : α → Prop) (b : Build EvalError α) : Prop :=
  ∀ s, match b s with
    | .ok (a, _) => P a
    | .error err => err.errorClass ≠ .stepLimit

theorem Yields.pure {a : α} (h : P a) : Yields P (pure a) :=
  fun _ => h

/-- A failure other than at a limit yields anything. -/
theorem Yields.throw {err : EvalError} (h : err.errorClass ≠ .stepLimit) :
    Yields P (throw err) :=
  fun _ => h

/-- Computations in turn yield what the second one does. -/
theorem Yields.bind (h : Yields P b) (hf : ∀ a, P a → Yields Q (f a)) : Yields Q (b >>= f) := by
  intro s
  have hb := h s
  rw [Build.bind_apply]
  cases hbs : b s with
  | error err =>
    rw [hbs] at hb
    exact hb
  | ok r =>
    rw [hbs] at hb
    exact hf r.1 hb r.2

/-- Outcomes that do not fail at a limit yield something. -/
theorem Yields.ofExcept {r : Except EvalError α}
    (h : ∀ err, r = .error err → err.errorClass ≠ .stepLimit) :
    Yields (fun _ => True) (ofExcept r) := by
  cases r with
  | ok a => exact .pure trivial
  | error err => exact .throw (h err rfl)

end Build

/-! ## Errors other than the limit -/

/-- A foreseen failure is none at a limit. -/
theorem EvalError.Foreseen.ne_stepLimit {err : EvalError} (h : err.Foreseen) :
    err.errorClass ≠ .stepLimit := by
  intro hclass
  cases err <;> simp_all [EvalError.Foreseen, EvalError.errorClass]

/-- A failure to build a node is none at a limit. -/
theorem EvalError.node_ne_stepLimit (e : NodeError) :
    (EvalError.node e).errorClass ≠ .stepLimit := by
  cases e <;> simp [EvalError.errorClass, NodeError.errorClass]

/-- No operator fails at a limit. -/
theorem BinaryOp.apply_ne_stepLimit {op : BinaryOp} {v w : Value} {err : EvalError}
    (h : op.apply v w = .error err) : err.errorClass ≠ .stepLimit := by
  cases op with
  | other code =>
    cases h
    simp [EvalError.errorClass]
  | _ => exact (BinaryOp.apply_error rfl h).ne_stepLimit

open Build

/-- A reduced part that is put back into its place leaves as many nodes to be reduced as the
replacement gives. -/
theorem Reduction.yields_within {x : Reduction} {rewrap : Operand → Build NodeError Expr} {n : Nat}
    (h : ∀ e s s', rewrap (.expr x.expr) s = .ok (e, s') → e.Below n) :
    Yields (fun y => y.expr.Below n) (x.within rewrap) := by
  intro s
  simp only [Reduction.within, Build.mapError, Build.bind_apply]
  cases hr : rewrap (.expr x.expr) s with
  | error e => exact EvalError.node_ne_stepLimit e
  | ok p => exact h p.1 s p.2 hr

mutual

/-- A reduction gives an expression with fewer nodes to be reduced, which is no hole. -/
theorem Expr.yields_reduce (env : Env) (e : Expr) :
    Yields (fun x => x.expr.Below e.pending) (e.reduce env) := by
  cases e with
  | identifier i =>
    rw [Expr.reduce, Env.read]
    cases env.find? i.name with
    | none => exact .throw (by simp [EvalError.errorClass])
    | some c => exact fun _ => ⟨Nat.one_pos, rfl⟩
  | constant c => exact .throw (EvalError.node_ne_stepLimit _)
  | binary id op l r =>
    rw [Expr.reduce]
    cases hl : l.constant? with
    | none =>
      refine .bind (Expr.yields_reduce env l) fun x hx => ?_
      refine Reduction.yields_within fun e s s' he => ?_
      obtain ⟨rfl, -⟩ := withLeft_eq_ok he
      exact ⟨by simpa [Expr.pending] using hx.1, rfl⟩
    | some a =>
      have hliteral : ∀ t : Bool,
          Yields (fun x : Reduction => x.expr.Below (Expr.binary id op l r).pending)
            (do return ⟨← Build.literal (.ofBool t), env, ""⟩) :=
        fun t _ => ⟨Nat.succ_pos _, rfl⟩
      refine .bind (.ofExcept fun err h => (BinaryOp.decided_error h).ne_stepLimit) fun t _ => ?_
      cases t with
      | true => exact hliteral false
      | false =>
        cases hr : r.constant? with
        | none =>
          refine .bind (Expr.yields_reduce env r) fun x hx => ?_
          refine Reduction.yields_within fun e s s' he => ?_
          obtain ⟨rfl, -⟩ := withRight_eq_ok he
          exact ⟨by simpa [Expr.pending] using hx.1, rfl⟩
        | some b =>
          exact .bind (.ofExcept fun err h => BinaryOp.apply_ne_stepLimit h) fun t _ => hliteral t
  | assign id x v =>
    rw [Expr.reduce]
    cases env.contains x.name with
    | false => exact .throw (by simp [EvalError.errorClass])
    | true =>
      cases hv : v.constant? with
      | none =>
        refine .bind (Expr.yields_reduce env v) fun y hy => ?_
        refine Reduction.yields_within fun e s s' he => ?_
        obtain ⟨rfl, -⟩ := withValue_assign_eq_ok he
        exact ⟨Nat.succ_lt_succ hy.1, rfl⟩
      | some c =>
        obtain rfl := Expr.constant?_eq_some_iff.1 hv
        refine .bind (.ofExcept fun err h => (Value.storable_error h).ne_stepLimit) fun _ _ => ?_
        exact fun _ => ⟨Nat.lt_succ_self _, rfl⟩
  | addAssign id x v =>
    rw [Expr.reduce]
    cases env.find? x.name with
    | none => exact .throw (by simp [EvalError.errorClass])
    | some current =>
      cases hv : v.constant? with
      | none =>
        refine .bind (Expr.yields_reduce env v) fun y hy => ?_
        refine Reduction.yields_within fun e s s' he => ?_
        obtain ⟨rfl, -⟩ := withValue_addAssign_eq_ok he
        exact ⟨Nat.succ_lt_succ hy.1, rfl⟩
      | some c =>
        refine .bind (.ofExcept fun err h => (Value.number_error h).ne_stepLimit) fun base _ => ?_
        refine .bind (.ofExcept fun err h => (Value.number_error h).ne_stepLimit) fun delta _ => ?_
        exact fun _ => ⟨Nat.succ_pos _, rfl⟩
  | increment id x =>
    rw [Expr.reduce]
    cases env.find? x.name with
    | none => exact .throw (by simp [EvalError.errorClass])
    | some current =>
      refine .bind (.ofExcept fun err h => (Value.number_error h).ne_stepLimit) fun n _ => ?_
      exact fun _ => ⟨Nat.one_pos, rfl⟩
  | invoke id f args =>
    rw [Expr.reduce]
    refine .bind (Expr.yields_reduceArgs env args) fun r hr => ?_
    cases r with
    | some p =>
      obtain ⟨i, x⟩ := p
      refine Reduction.yields_within fun e s s' he => ?_
      obtain ⟨rfl, -⟩ := withArgument_eq_ok he
      exact ⟨Nat.succ_lt_succ (hr (i, x) rfl), rfl⟩
    | none =>
      by_cases hf : f.name = "printf"
      · simp only [hf, ↓reduceIte]
        refine .bind (.ofExcept fun err h => (printf_error h).ne_stepLimit) fun text _ => ?_
        exact fun _ => ⟨Nat.succ_pos _, rfl⟩
      · simp only [hf, ↓reduceIte]
        exact .throw (by simp [EvalError.errorClass])
  | hole v => exact .throw (EvalError.node_ne_stepLimit _)

/-- A reduction of an argument leaves fewer nodes of all arguments to be reduced. -/
theorem Expr.yields_reduceArgs (env : Env) (es : List Expr) :
    Yields (fun r => ∀ p, r = some p →
        Expr.pendingAll (es.set p.1 p.2.expr) < Expr.pendingAll es)
      (Expr.reduceArgs env es) := by
  cases es with
  | nil => exact .pure fun p hp => by cases hp
  | cons e es =>
    rw [Expr.reduceArgs]
    cases he : e.constant? with
    | some c =>
      refine .bind (Expr.yields_reduceArgs env es) fun r hr => ?_
      cases r with
      | none => exact .pure fun p hp => by cases hp
      | some q =>
        refine .pure fun p hp => ?_
        cases hp
        exact Nat.add_lt_add_left (hr q rfl) _
    | none =>
      refine .bind (Expr.yields_reduce env e) fun x hx => .pure fun p hp => ?_
      cases hp
      exact Nat.add_lt_add_right hx.1 _

end

section Reduce

variable {e : Expr} {env : Env} {s s' : Supply} {x : Reduction} {err : EvalError}

/-- Every reduction leaves fewer nodes to be reduced. -/
theorem Expr.pending_lt_of_reduce (h : e.reduce env s = .ok (x, s')) :
    x.expr.pending < e.pending := by
  have hyields := Expr.yields_reduce env e s
  rw [h] at hyields
  exact hyields.1

/-- A reduction never gives a hole. -/
theorem Expr.expr_of_reduce (h : e.reduce env s = .ok (x, s')) :
    Operand.expr x.expr = .filled (.expr x.expr) := by
  have hyields := Expr.yields_reduce env e s
  rw [h] at hyields
  exact hyields.2

/-- No reduction fails at a limit. -/
theorem Expr.reduce_ne_stepLimit (h : e.reduce env s = .error err) :
    err.errorClass ≠ .stepLimit := by
  have hyields := Expr.yields_reduce env e s
  rw [h] at hyields
  exact hyields

end Reduce

/-! ## No step fails at a limit -/

namespace State

variable {s : State} {err : EvalError}

/-- No reduction inside of a statement fails at a limit. -/
theorem reduceIn_ne_stepLimit {e : Expr} {rewrap : Operand → Build NodeError Stmt}
    (h : s.reduceIn e rewrap = .error err) : err.errorClass ≠ .stepLimit := by
  unfold reduceIn at h
  split at h
  · rename_i err' hx
    cases h
    exact Expr.reduce_ne_stepLimit hx
  · split at h
    · cases h
      exact EvalError.node_ne_stepLimit _
    · cases h

theorem jumpTo_ne_stepLimit {l : Label} (h : s.jumpTo l = .error err) :
    err.errorClass ≠ .stepLimit := by
  unfold jumpTo at h
  split at h
  · cases h
  · cases h
    simp [EvalError.errorClass]

/-- A declaration fails at a limit only if its value does. -/
theorem declareChecked_ne_stepLimit {name : String} {value : Except EvalError Value}
    (hvalue : ∀ err, value = .error err → err.errorClass ≠ .stepLimit)
    (h : s.declareChecked name value = .error err) : err.errorClass ≠ .stepLimit := by
  unfold declareChecked at h
  split at h
  · cases h
    simp [EvalError.errorClass]
  · split at h
    · cases h
      exact hvalue _ rfl
    · cases h

theorem initialValue_ne_stepLimit {name : String} {v : Value}
    (h : initialValue name v = .error err) : err.errorClass ≠ .stepLimit := by
  unfold initialValue at h
  split at h
  · rename_i err' hstore
    cases h
    exact (Value.storable_error hstore).ne_stepLimit
  · cases h

/-- No statement fails at a limit. -/
theorem stepStmt_ne_stepLimit {st : Stmt} (h : s.stepStmt st = .error err) :
    err.errorClass ≠ .stepLimit := by
  cases st with
  | expression id v =>
    cases v with
    | none => cases h
    | some e =>
      simp only [stepStmt] at h
      split at h
      · cases h
      · exact reduceIn_ne_stepLimit h
  | declaration id t x v =>
    cases v with
    | none =>
      simp only [stepStmt] at h
      exact declareChecked_ne_stepLimit (fun err herr => by cases herr) h
    | some e =>
      simp only [stepStmt] at h
      split at h
      · exact declareChecked_ne_stepLimit (fun err => initialValue_ne_stepLimit) h
      · exact reduceIn_ne_stepLimit h
  | undeclaration id x =>
    simp only [stepStmt] at h
    split at h
    · cases h
    · cases h
      simp [EvalError.errorClass]
  | jump id l => exact jumpTo_ne_stepLimit h
  | condJump id c t f o =>
    simp only [stepStmt] at h
    split at h
    · split at h
      · rename_i err' htruth
        cases h
        exact (Value.truth_error htruth).ne_stepLimit
      · exact jumpTo_ne_stepLimit h
    · exact reduceIn_ne_stepLimit h
  | _ =>
    cases h
    exact EvalError.node_ne_stepLimit _

/-- A step never fails at a limit; limits are for runs. -/
theorem step_ne_stepLimit (h : s.step = .error err) : err.errorClass ≠ .stepLimit := by
  unfold step at h
  split at h
  · cases h
    simp [EvalError.errorClass]
  · split at h
    · exact stepStmt_ne_stepLimit h
    · cases h
      exact EvalError.node_ne_stepLimit _
    · split at h <;>
        · cases h
          exact EvalError.node_ne_stepLimit _

end State

end Stepwise
