import Stepwise.Proofs.Interpretation
import Stepwise.Proofs.Measure

/-!
# Proofs - Evaluation in one pass

Reductions restart from the root of an expression each time: names that are assigned
to are looked up again, and so is the truth of a left operand.  An evaluator that goes
over the expression once does all this at one moment.  Both agree, since every
reduction leaves what the evaluator gives as it is, and where a reduction is stuck the
evaluator fails before it did anything.

Main definitions:

- `Expr.settle`, which reduces an expression until it is a constant.
- `Expr.evaluate`, the evaluator.

Main results:

- `Expr.Reduces.run_evaluate` and `Expr.Blocked.run_evaluate`: one reduction.
- `settle_eq_evaluate`: all reductions.
-/

namespace Stepwise

/-! ## Reducing to the end -/

/-- Reduce an expression until it is a constant or a reduction fails. -/
def Expr.settle (e : Expr) (env : Env) (out : String) (s : Supply) :
    EStateM.Result EvalError Memory Value :=
  match e.constant? with
  | some c => .ok c.value ⟨env.contents, out⟩
  | none =>
    match hx : e.reduce env s with
    | .error err => .error err ⟨env.contents, out⟩
    | .ok (x, s') =>
      have := Expr.pending_lt_of_reduce hx
      x.expr.settle x.env (out ++ x.output) s'
termination_by e.pending

/-! ## The evaluator -/

/-- Computations on a memory that may fail; what was done before a failure stays done. -/
abbrev Evaluator := EStateM EvalError Memory

/-- The whole number a value counts as, if any. -/
def Value.quantity? : Value → Option Int
  | .int n => some n.toInt
  | .string _ => some 99
  | .null => some 0
  | _ => none

namespace Evaluator

/-- The number a value counts as, or the error that it has none. -/
def quantity (v : Value) : Evaluator Int :=
  match v.quantity? with
  | some n => pure n
  | none => throw (.noNumber v.datatype)

/-- A value is true unless it counts as zero. -/
def truth (v : Value) : Evaluator Bool :=
  match v.quantity? with
  | some n => pure (n ≠ 0)
  | none => throw (.noTruth v.datatype)

/-- The value of a variable that has to be in scope. -/
def fetch (use : NameUse) (name : String) : Evaluator Value := do
  match (← get).vars.find? (·.1 == name) with
  | some (_, v) => pure v
  | none => throw (.undeclared use name)

/-- Print a text. -/
def write (text : String) : Evaluator Unit :=
  modify fun m => { m with output := m.output ++ text }

/-- A comparison of the numbers that two values count as. -/
def comparison (test : Int → Int → Bool) (a b : Value) : Evaluator Value := do
  return .ofBool (test (← quantity a) (← quantity b))

/-- What is left of a binary expression once its left operand has the value `a`.  Only a
conjunction looks at it before the right operand is evaluated. -/
def afterLeft (op : BinaryOp) (a : Value) (right : Evaluator Value) : Evaluator Value :=
  match op with
  | .and => do
    if ← truth a then
      let b ← right
      return .ofBool (← truth b)
    else
      return .ofBool false
  | .le => do
    let b ← right
    comparison (fun l r => l ≤ r) a b
  | .eq => do
    let b ← right
    comparison (fun l r => l = r) a b
  | .other code => do
    let _ ← right
    throw (.unhandledOperator code)

/-- A binary expression of two operands. -/
def binary (op : BinaryOp) (left right : Evaluator Value) : Evaluator Value := do
  let a ← left
  afterLeft op a right

/-- A variable has to be in scope. -/
def require (use : NameUse) (name : String) : Evaluator Unit := do
  let _ ← fetch use name

/-- Bind a name, which is worth the value it is given. -/
def put (name : String) (v : Value) : Evaluator Value := do
  modify fun m => { m with vars := Env.assign name v m.vars }
  return v

/-- An assignment of a value to a variable, which was in scope before. -/
def assign (name : String) (value : Evaluator Value) : Evaluator Value := do
  require .assigning name
  let v ← value
  if v = .void then throw (.storingVoid name) else put name v

/-- An addition of a value to a variable, which is read after the value was evaluated.  The
sum is taken modulo `2 ^ 64`. -/
def addAssign (name : String) (value : Evaluator Value) : Evaluator Value := do
  require .adding name
  let v ← value
  let base ← quantity (← fetch .adding name)
  put name (.int (.ofInt (base + (← quantity v))))

/-- An increment of a variable, worth the number the variable had. -/
def increment (name : String) : Evaluator Value := do
  let n ← quantity (← fetch .incrementing name)
  let _ ← put name (.int (.ofInt (n + 1)))
  return .int (.ofInt n)

/-- A call of `printf`, the one function there is. -/
def invoke (name : String) (args : Evaluator (List Value)) : Evaluator Value := do
  let values ← args
  if name = "printf" then
    write (← ofExcept (printf values))
    return .void
  else
    throw (.unsupportedFunction name)

end Evaluator

mutual

/-- Evaluate an expression in one pass, from left to right. -/
def Expr.evaluate : Expr → Evaluator Value
  | .identifier i => Evaluator.fetch .reading i.name
  | .constant c => pure c.value
  | .binary _ op l r => Evaluator.binary op l.evaluate r.evaluate
  | .assign _ x v => Evaluator.assign x.name v.evaluate
  | .addAssign _ x v => Evaluator.addAssign x.name v.evaluate
  | .increment _ x => Evaluator.increment x.name
  | .invoke _ f args => Evaluator.invoke f.name (Expr.evaluateAll args)
  | .hole reserved => throw (.node (unreducible reserved))

/-- Evaluate some expressions, from left to right. -/
def Expr.evaluateAll : List Expr → Evaluator (List Value)
  | [] => pure []
  | e :: es => do
    let v ← e.evaluate
    let vs ← Expr.evaluateAll es
    return v :: vs

end

/-! ## Computations of the evaluator -/

namespace Evaluator

variable {α β : Type} {m m' : Memory} {env : Env} {out name : String} {use : NameUse}

/-- After a success, the evaluator goes on with the value. -/
theorem run_bind_ok {x : Evaluator α} {f : α → Evaluator β} {a : α} (h : x.run m = .ok a m') :
    (x >>= f).run m = (f a).run m' := by
  rw [EStateM.run_bind, h]

/-- After a failure, nothing more is evaluated. -/
theorem run_bind_error {x : Evaluator α} {f : α → Evaluator β} {err : EvalError}
    (h : x.run m = .error err m') : (x >>= f).run m = .error err m' := by
  rw [EStateM.run_bind, h]

/-- Computations that end alike can be continued alike. -/
theorem run_bind_congr {x y : Evaluator α} {f : α → Evaluator β} (h : x.run m = y.run m') :
    (x >>= f).run m = (y >>= f).run m' := by
  rw [EStateM.run_bind, EStateM.run_bind, h]

/-- The quantity of a value is its number as an integer. -/
theorem quantity_eq (v : Value) : quantity v = ofExcept (v.number.map Int64.toInt) := by
  cases v <;> rfl

/-- A value with a number has that quantity. -/
theorem quantity_ok {v : Value} {n : Int64} (h : v.number = .ok n) : quantity v = pure n.toInt := by
  rw [quantity_eq, h]
  rfl

theorem quantity_error {v : Value} {err : EvalError} (h : v.number = .error err) :
    quantity v = throw err := by
  rw [quantity_eq, h]
  rfl

/-- The truth of a value needs no memory. -/
theorem truth_eq (v : Value) : truth v = ofExcept v.truth := by
  cases v with
  | int n =>
    have hzero : decide (n.toInt ≠ 0) = (n != 0) := by
      rw [Bool.eq_iff_iff, decide_eq_true_iff, bne_iff_ne, ← Int64.toInt_zero, ne_eq,
        Int64.toInt_inj]
    exact congrArg pure hzero
  | _ => rfl

/-- Fetching a name gives its first value, or fails. -/
theorem run_fetch (use : NameUse) (name : String) (m : Memory) :
    (fetch use name).run m =
      match (m.vars.find? (·.1 == name)).map (·.2) with
      | some v => .ok v m
      | none => .error (.undeclared use name) m := by
  rw [fetch, run_bind_ok (EStateM.run_get m)]
  cases m.vars.find? (·.1 == name) with
  | none => rfl
  | some v => rfl

/-- Fetching a bound name gives its value. -/
theorem run_fetch_ok {c : Constant} (h : env.find? name = some c) :
    (fetch use name).run ⟨env.contents, out⟩ = .ok c.value ⟨env.contents, out⟩ := by
  rw [run_fetch, ← Env.find?_value, h]
  rfl

/-- Fetching a name that is not bound fails. -/
theorem run_fetch_error (h : env.find? name = none) :
    (fetch use name).run ⟨env.contents, out⟩ =
      .error (.undeclared use name) ⟨env.contents, out⟩ := by
  rw [run_fetch, ← Env.find?_value, h]
  rfl

/-- A bound name is there as required. -/
theorem run_require_ok (h : name ∈ env.names) :
    (require use name).run ⟨env.contents, out⟩ = .ok () ⟨env.contents, out⟩ := by
  cases hfind : env.find? name with
  | none => exact absurd h (Env.find?_eq_none_iff.1 hfind)
  | some c => exact run_bind_ok (run_fetch_ok hfind)

theorem run_require_error (h : env.find? name = none) :
    (require use name).run ⟨env.contents, out⟩ =
      .error (.undeclared use name) ⟨env.contents, out⟩ :=
  run_bind_error (run_fetch_error h)

/-- Putting a value binds the name to it. -/
theorem run_put (c : Constant) :
    (put name c.value).run ⟨env.contents, out⟩ =
      .ok c.value ⟨(env.insert name c).contents, out⟩ := by
  rw [Env.contents_insert]
  rfl

/-! ## Operators -/

/-- A conjunction is decided by its left operand if that is false. -/
theorem truth_of_decided {a : Value} {t : Bool} (h : BinaryOp.and.decided a = .ok t) :
    truth a = pure !t := by
  unfold BinaryOp.decided at h
  rw [truth_eq]
  cases ht : a.truth with
  | error err =>
    rw [ht] at h
    cases h
  | ok b =>
    rw [ht] at h
    cases h
    rw [Bool.not_not]
    rfl

/-- A left operand that cannot decide a conjunction has no truth value. -/
theorem truth_of_undecided {a : Value} {err : EvalError}
    (h : BinaryOp.and.decided a = .error err) : truth a = throw err := by
  unfold BinaryOp.decided at h
  rw [truth_eq]
  cases ht : a.truth with
  | error err' =>
    rw [ht] at h
    cases h
    rfl
  | ok b =>
    rw [ht] at h
    cases h

/-- A comparison of integers is the comparison of the words. -/
theorem comparison_eq {test : Int → Int → Bool} {test' : Int64 → Int64 → Bool}
    (h : ∀ l r : Int64, test l.toInt r.toInt = test' l r) (a b : Value) :
    comparison test a b =
      ofExcept ((do return test' (← a.number) (← b.number) : Except EvalError Bool).map
        Value.ofBool) := by
  unfold comparison
  rw [quantity_eq, quantity_eq]
  cases a.number with
  | error err => rfl
  | ok l =>
    cases b.number with
    | error err => rfl
    | ok r =>
      have htest := congrArg Value.ofBool (h l r)
      exact congrArg (pure : Value → Evaluator Value) htest

/-- A left operand that decides leaves nothing to do. -/
theorem afterLeft_decided {op : BinaryOp} {a : Value} (r : Evaluator Value)
    (h : op.decided a = .ok true) : afterLeft op a r = pure (.ofBool false) := by
  cases op with
  | and =>
    rw [afterLeft, truth_of_decided h]
    rfl
  | _ => cases h

/-- A left operand that cannot decide fails before the right one is evaluated. -/
theorem afterLeft_undecided {op : BinaryOp} {a : Value} {err : EvalError} (r : Evaluator Value)
    (h : op.decided a = .error err) : afterLeft op a r = throw err := by
  cases op with
  | and =>
    rw [afterLeft, truth_of_undecided h]
    rfl
  | _ => cases h

/-- After a left operand that does not decide, the right one is evaluated, and the operator is
applied to both values. -/
theorem afterLeft_eq {op : BinaryOp} {a : Value} (r : Evaluator Value)
    (h : op.decided a = .ok false) :
    afterLeft op a r = r >>= fun b => ofExcept ((op.apply a b).map Value.ofBool) := by
  cases op with
  | and =>
    rw [afterLeft, truth_of_decided h, pure_bind]
    refine bind_congr fun b => ?_
    rw [truth_eq, BinaryOp.apply]
    cases b.truth with
    | error err => rfl
    | ok t => rfl
  | le =>
    refine bind_congr fun b => comparison_eq (fun l r => ?_) a b
    rw [decide_eq_decide, Int64.le_iff_toInt_le]
  | eq =>
    refine bind_congr fun b => comparison_eq (fun l r => ?_) a b
    rw [Bool.eq_iff_iff, decide_eq_true_iff, beq_iff_eq, Int64.toInt_inj]
  | other code => rfl

/-! ## Variables -/

/-- All values can be stored but the one of type void. -/
theorem storable_eq (v : Value) (name : String) :
    v.storable name = if v = .void then .error (.storingVoid name) else .ok () := by
  cases v <;> rfl

/-- Assigning a value that can be stored binds the name to it. -/
theorem run_assign_ok {v : Value} (hname : name ∈ env.names) (h : v.storable name = .ok ())
    (k : NodeId) :
    (assign name (pure v)).run ⟨env.contents, out⟩ =
      .ok v ⟨(env.insert name ⟨k, v⟩).contents, out⟩ := by
  rw [storable_eq] at h
  rw [assign, run_bind_ok (run_require_ok hname), pure_bind]
  split at h
  · cases h
  · rw [if_neg ‹_›]
    exact run_put ⟨k, v⟩

/-- Assigning a value that cannot be stored changes nothing. -/
theorem run_assign_error {v : Value} {err : EvalError} (hname : name ∈ env.names)
    (h : v.storable name = .error err) :
    (assign name (pure v)).run ⟨env.contents, out⟩ = .error err ⟨env.contents, out⟩ := by
  rw [storable_eq] at h
  rw [assign, run_bind_ok (run_require_ok hname), pure_bind]
  split at h
  · cases h
    rw [if_pos ‹_›]
    rfl
  · cases h

/-- Once the value is there, the variable and then the value are taken as numbers. -/
theorem run_addAssign {v : Value} {b : Constant} (h : env.find? name = some b) :
    (addAssign name (pure v)).run ⟨env.contents, out⟩ =
      (do
        let base ← quantity b.value
        put name (.int (.ofInt (base + (← quantity v))))).run ⟨env.contents, out⟩ := by
  rw [addAssign, run_bind_ok (run_require_ok (Env.mem_names_of_find? h)), pure_bind,
    run_bind_ok (run_fetch_ok h)]

/-- Adding to a number binds the name to the sum. -/
theorem run_addAssign_ok {v : Value} {b : Constant} {l r : Int64} (h : env.find? name = some b)
    (hl : b.value.number = .ok l) (hr : v.number = .ok r) (k : NodeId) :
    (addAssign name (pure v)).run ⟨env.contents, out⟩ =
      .ok (.int (l + r)) ⟨(env.insert name ⟨k, .int (l + r)⟩).contents, out⟩ := by
  have hsum : Int64.ofInt (l.toInt + r.toInt) = l + r := by
    rw [Int64.ofInt_add, Int64.ofInt_toInt, Int64.ofInt_toInt]
  rw [run_addAssign h, quantity_ok hl, pure_bind, quantity_ok hr, pure_bind, hsum]
  exact run_put ⟨k, _⟩

/-- Incrementing a number binds the name to its successor and gives the number. -/
theorem run_increment_ok {b : Constant} {n : Int64} (h : env.find? name = some b)
    (hn : b.value.number = .ok n) (k : NodeId) :
    (increment name).run ⟨env.contents, out⟩ =
      .ok (.int n) ⟨(env.insert name ⟨k, .int (n + 1)⟩).contents, out⟩ := by
  have hsum : Int64.ofInt (n.toInt + 1) = n + 1 := by
    rw [Int64.ofInt_add, Int64.ofInt_toInt]
    rfl
  rw [increment, run_bind_ok (run_fetch_ok h), quantity_ok hn, pure_bind, hsum,
    run_bind_ok (run_put ⟨k, _⟩), Int64.ofInt_toInt]
  rfl

end Evaluator

/-! ## Arguments -/

/-- Settled expressions evaluate to their values. -/
theorem Expr.evaluateAll_settled {es : List Expr} (h : Expr.Settled es) :
    Expr.evaluateAll es = pure (Expr.values es) := by
  induction es with
  | nil => rfl
  | cons e es ih =>
    obtain ⟨he, hes⟩ := Expr.settled_cons.1 h
    obtain ⟨c, hc⟩ := Option.ne_none_iff_exists'.1 he
    obtain rfl := Expr.constant?_eq_some_iff.1 hc
    rw [Expr.evaluateAll, ih hes]
    rfl

/-- What comes after the first argument that is no constant does not depend on it. -/
theorem Expr.exists_evaluateAll {done : List Expr} (h : Expr.Settled done) (rest : List Expr) :
    ∃ k : Value → Evaluator (List Value),
      ∀ e : Expr, Expr.evaluateAll (done ++ e :: rest) = e.evaluate >>= k := by
  induction done with
  | nil => exact ⟨fun v => do return v :: (← Expr.evaluateAll rest), fun e => rfl⟩
  | cons a done ih =>
    obtain ⟨ha, hdone⟩ := Expr.settled_cons.1 h
    obtain ⟨k, hk⟩ := ih hdone
    obtain ⟨c, hc⟩ := Option.ne_none_iff_exists'.1 ha
    obtain rfl := Expr.constant?_eq_some_iff.1 hc
    refine ⟨fun v => do return c.value :: (← k v), fun e => ?_⟩
    rw [List.cons_append, Expr.evaluateAll, Expr.evaluate, pure_bind, hk, bind_assoc]

/-! ## One reduction -/

section Reduction

open Evaluator

variable {env : Env} {e : Expr} {s s' : Supply} {x : Reduction} {err : EvalError}

/-- With a constant on its left, an operation goes on with the right operand. -/
theorem Expr.evaluate_binary_constant (id : NodeId) (op : BinaryOp) (a : Constant) (r : Expr) :
    (Expr.binary id op (.constant a) r).evaluate = afterLeft op a.value r.evaluate :=
  pure_bind a.value fun v => afterLeft op v r.evaluate

/-- A call of settled arguments prints, or fails if it is another function. -/
theorem Expr.evaluate_invoke_settled {args : List Expr} (h : Expr.Settled args) (id : NodeId)
    (f : Identifier) :
    (Expr.invoke id f args).evaluate =
      if f.name = "printf" then do
        write (← ofExcept (printf (Expr.values args)))
        return .void
      else throw (.unsupportedFunction f.name) := by
  rw [Expr.evaluate, Expr.evaluateAll_settled h, Evaluator.invoke, pure_bind]

/-- A reduction leaves what is evaluated as it is. -/
theorem Expr.Reduces.run_evaluate (h : e.Reduces env s x s') (out : String) :
    e.evaluate.run ⟨env.contents, out⟩ =
      x.expr.evaluate.run ⟨x.env.contents, out ++ x.output⟩ := by
  induction h with
  | read hfind =>
    rw [Expr.evaluate, run_fetch_ok hfind, String.append_empty]
    rfl
  | left _ _ ih => exact run_bind_congr ih
  | decided hop =>
    rw [Expr.evaluate_binary_constant, afterLeft_decided _ hop, String.append_empty]
    rfl
  | right hop _ _ ih =>
    rw [Expr.evaluate_binary_constant, Expr.evaluate_binary_constant, afterLeft_eq _ hop,
      afterLeft_eq _ hop]
    exact run_bind_congr ih
  | apply hop happly =>
    rw [Expr.evaluate_binary_constant, afterLeft_eq _ hop, Expr.evaluate, pure_bind, happly,
      String.append_empty]
    rfl
  | @assigned id y v s s' z hy hv h ih =>
    have hmem := Env.contains_iff_mem_names.1 hy
    have hmem' : y.name ∈ z.env.names := h.names ▸ hmem
    calc _ = _ := run_bind_ok (run_require_ok hmem)
      _ = _ := run_bind_congr ih
      _ = _ := (run_bind_ok (run_require_ok hmem')).symm
  | @assign id y c s hy hstore =>
    rw [String.append_empty]
    exact run_assign_ok (Env.contains_iff_mem_names.1 hy) hstore _
  | @added id y v b s s' z hy hv h ih =>
    have hmem := Env.mem_names_of_find? hy
    have hmem' : y.name ∈ z.env.names := h.names ▸ hmem
    calc _ = _ := run_bind_ok (run_require_ok hmem)
      _ = _ := run_bind_congr ih
      _ = _ := (run_bind_ok (run_require_ok hmem')).symm
  | @add id y b c m n s hy hm hn =>
    rw [String.append_empty]
    exact run_addAssign_ok hy hm hn _
  | increment hx hn =>
    rw [String.append_empty]
    exact run_increment_ok hx hn _
  | @argument id f done rest e s s' x hdone hnone h ih =>
    obtain ⟨k, hk⟩ := Expr.exists_evaluateAll hdone rest
    rw [Expr.evaluate, hk, Expr.evaluate, hk]
    exact run_bind_congr (run_bind_congr ih)
  | print hargs hf htext =>
    rw [Expr.evaluate_invoke_settled hargs, if_pos hf, htext]
    rfl

/-- Where a reduction fails, evaluation fails in the same way, before it did anything. -/
theorem Expr.Blocked.run_evaluate (h : e.Blocked env err) (out : String) :
    e.evaluate.run ⟨env.contents, out⟩ = .error err ⟨env.contents, out⟩ := by
  induction h with
  | read hfind => exact run_fetch_error hfind
  | left _ _ ih => exact run_bind_error ih
  | undecided hop =>
    rw [Expr.evaluate_binary_constant, afterLeft_undecided _ hop]
    rfl
  | right hop _ _ ih =>
    rw [Expr.evaluate_binary_constant, afterLeft_eq _ hop]
    exact run_bind_error ih
  | apply hop happly =>
    rw [Expr.evaluate_binary_constant, afterLeft_eq _ hop, Expr.evaluate, pure_bind, happly]
    rfl
  | unassignable hx =>
    have hfind := Env.find?_eq_none_iff.2 (Env.contains_eq_false_iff.1 hx)
    exact run_bind_error (run_require_error hfind)
  | assigned hx _ _ ih =>
    exact (run_bind_ok (run_require_ok (Env.contains_iff_mem_names.1 hx))).trans (run_bind_error ih)
  | store hx hstore => exact run_assign_error (Env.contains_iff_mem_names.1 hx) hstore
  | unaddable hx => exact run_bind_error (run_require_error hx)
  | added hx _ _ ih =>
    exact (run_bind_ok (run_require_ok (Env.mem_names_of_find? hx))).trans (run_bind_error ih)
  | base hx hm =>
    refine (run_addAssign hx).trans ?_
    rw [quantity_error hm]
    rfl
  | delta hx hm hn =>
    refine (run_addAssign hx).trans ?_
    rw [quantity_ok hm, quantity_error hn]
    rfl
  | unincrementable hx => exact run_bind_error (run_fetch_error hx)
  | increment hx hn =>
    refine (run_bind_ok (run_fetch_ok hx)).trans ?_
    rw [quantity_error hn]
    rfl
  | @argument id f done rest e err hdone _ _ ih =>
    obtain ⟨k, hk⟩ := Expr.exists_evaluateAll hdone rest
    rw [Expr.evaluate, hk]
    exact run_bind_error (run_bind_error ih)
  | function hargs hf =>
    rw [Expr.evaluate_invoke_settled hargs, if_neg hf]
    rfl
  | print hargs hf htext =>
    rw [Expr.evaluate_invoke_settled hargs, if_pos hf, htext]
    rfl

/-- Reducing an expression until it is a constant gives what evaluating it gives: the same value
or the same error, with the same variables and the same text printed by then. -/
theorem settle_eq_evaluate (e : Expr) (he : e.Checked) (env : Env) (out : String) (s : Supply) :
    e.settle env out s = e.evaluate.run ⟨env.contents, out⟩ := by
  fun_induction Expr.settle e env out s with
  | case1 e env out s c hc =>
    obtain rfl := Expr.constant?_eq_some_iff.1 hc
    rfl
  | case2 e env out s hc err hx =>
    have hblocked := (Expr.reduce_eq_error_iff he hc).1 hx
    exact (hblocked.run_evaluate out).symm
  | case3 e env out s hc x s' hx hlt ih =>
    have hreduces := (Expr.reduce_eq_ok_iff he).1 hx
    exact (ih (hreduces.checked he)).trans (hreduces.run_evaluate out).symm

/-- The expression `(x += x++) <= x && printf("%d", x)`. -/
def entangledExpr : Expr :=
  .binary 1 .and
    (.binary 2 .le (.addAssign 3 ⟨4, "x"⟩ (.increment 5 ⟨6, "x"⟩)) (.identifier ⟨7, "x"⟩))
    (.invoke 8 ⟨9, "printf"⟩ [.constant ⟨10, .string "%d"⟩, .identifier ⟨11, "x"⟩])

/-- The variable is read after it was incremented, and the text is printed although what the
call is worth has no truth. -/
theorem settle_eq_evaluate_entangledExpr :
    entangledExpr.Checked ∧
      entangledExpr.settle ⟨[⟨"x", ⟨20, .int 5⟩⟩]⟩ "" ⟨30, 0⟩ =
        .error (.noTruth .void) ⟨[("x", .int 11)], "11"⟩ := by
  have he : entangledExpr.Checked := by
    simp [entangledExpr, Identifier.Checked, BinaryOp.known]
  refine ⟨he, (settle_eq_evaluate _ he _ _ _).trans ?_⟩
  rfl

end Reduction

end Stepwise
