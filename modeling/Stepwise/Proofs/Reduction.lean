import Stepwise.Machine.Reduce
import Stepwise.Proofs.Building
import Stepwise.Proofs.Environment

/-!
# Proofs - What one reduction can do

A reduction is described by rules, one for each way in which an expression can be
rewritten and one for each way in which it can be stuck.  On checked expressions
the rules say exactly what `Expr.reduce` computes, so every fact about a
reduction follows by going through the rules once.

Main results:

- `Expr.reduce_eq_ok_iff` and `Expr.reduce_eq_error_iff`: the rules and the
  function agree.
- `Expr.Reduces.checked`: reducing a checked expression gives a checked one.
- `Expr.Reduces.names`: reducing an expression keeps the names in scope.
- `Expr.Blocked.foreseen`: the errors that a reduction can end with.
-/

namespace Stepwise

/-- Whether all expressions of a list are constants. -/
def Expr.Settled (es : List Expr) : Prop :=
  ∀ e ∈ es, e.constant? ≠ none

/-- The ways in which an expression can be reduced. -/
inductive Expr.Reduces (env : Env) : Expr → Supply → Reduction → Supply → Prop
  | read {i : Identifier} {c : Constant} {s : Supply} :
      env.find? i.name = some c →
      Reduces env (.identifier i) s ⟨.constant ⟨s.node, c.value⟩, env, ""⟩ s.next
  | left {id : NodeId} {op : BinaryOp} {l r : Expr} {s s' : Supply} {x : Reduction} :
      l.constant? = none → Reduces env l s x s' →
      Reduces env (.binary id op l r) s ⟨.binary s'.node op x.expr r, x.env, x.output⟩ s'.next
  | decided {id : NodeId} {op : BinaryOp} {a : Constant} {r : Expr} {s : Supply} :
      op.decided a.value = .ok true →
      Reduces env (.binary id op (.constant a) r) s
        ⟨.constant ⟨s.node, .ofBool false⟩, env, ""⟩ s.next
  | right {id : NodeId} {op : BinaryOp} {a : Constant} {r : Expr} {s s' : Supply}
      {x : Reduction} :
      op.decided a.value = .ok false → r.constant? = none → Reduces env r s x s' →
      Reduces env (.binary id op (.constant a) r) s
        ⟨.binary s'.node op (.constant a) x.expr, x.env, x.output⟩ s'.next
  | apply {id : NodeId} {op : BinaryOp} {a b : Constant} {s : Supply} {t : Bool} :
      op.decided a.value = .ok false → op.apply a.value b.value = .ok t →
      Reduces env (.binary id op (.constant a) (.constant b)) s
        ⟨.constant ⟨s.node, .ofBool t⟩, env, ""⟩ s.next
  | assigned {id : NodeId} {x : Identifier} {v : Expr} {s s' : Supply}
      {y : Reduction} :
      env.contains x.name = true → v.constant? = none → Reduces env v s y s' →
      Reduces env (.assign id x v) s ⟨.assign s'.node x y.expr, y.env, y.output⟩ s'.next
  | assign {id : NodeId} {x : Identifier} {c : Constant} {s : Supply} :
      env.contains x.name = true → c.value.storable x.name = .ok () →
      Reduces env (.assign id x (.constant c)) s
        ⟨.constant c, env.insert x.name ⟨s.node, c.value⟩, ""⟩ s.next
  | added {id : NodeId} {x : Identifier} {v : Expr} {b : Constant} {s s' : Supply}
      {y : Reduction} :
      env.find? x.name = some b → v.constant? = none → Reduces env v s y s' →
      Reduces env (.addAssign id x v) s ⟨.addAssign s'.node x y.expr, y.env, y.output⟩ s'.next
  | add {id : NodeId} {x : Identifier} {b c : Constant} {m n : Int64} {s : Supply} :
      env.find? x.name = some b → b.value.number = .ok m → c.value.number = .ok n →
      Reduces env (.addAssign id x (.constant c)) s
        ⟨.constant ⟨s.node, .int (m + n)⟩, env.insert x.name ⟨s.next.node, .int (m + n)⟩, ""⟩
        s.next.next
  | increment {id : NodeId} {x : Identifier} {b : Constant} {n : Int64}
      {s : Supply} :
      env.find? x.name = some b → b.value.number = .ok n →
      Reduces env (.increment id x) s
        ⟨.constant ⟨s.next.next.node, .int n⟩, env.insert x.name ⟨s.next.node, .int (n + 1)⟩, ""⟩
        s.next.next.next
  | argument {id : NodeId} {f : Identifier} {done rest : List Expr} {e : Expr}
      {s s' : Supply} {x : Reduction} :
      Settled done → e.constant? = none → Reduces env e s x s' →
      Reduces env (.invoke id f (done ++ e :: rest)) s
        ⟨.invoke s'.node f (done ++ x.expr :: rest), x.env, x.output⟩ s'.next
  | print {id : NodeId} {f : Identifier} {args : List Expr} {s : Supply}
      {text : String} :
      Settled args → f.name = "printf" → printf (Expr.values args) = .ok text →
      Reduces env (.invoke id f args) s ⟨.constant ⟨s.node, .void⟩, env, text⟩ s.next

/-- The ways in which the reduction of an expression can fail. -/
inductive Expr.Blocked (env : Env) : Expr → EvalError → Prop
  | read {i : Identifier} :
      env.find? i.name = none → Blocked env (.identifier i) (.undeclared .reading i.name)
  | left {id : NodeId} {op : BinaryOp} {l r : Expr} {err : EvalError} :
      l.constant? = none → Blocked env l err → Blocked env (.binary id op l r) err
  | undecided {id : NodeId} {op : BinaryOp} {a : Constant} {r : Expr}
      {err : EvalError} :
      op.decided a.value = .error err → Blocked env (.binary id op (.constant a) r) err
  | right {id : NodeId} {op : BinaryOp} {a : Constant} {r : Expr} {err : EvalError} :
      op.decided a.value = .ok false → r.constant? = none → Blocked env r err →
      Blocked env (.binary id op (.constant a) r) err
  | apply {id : NodeId} {op : BinaryOp} {a b : Constant} {err : EvalError} :
      op.decided a.value = .ok false → op.apply a.value b.value = .error err →
      Blocked env (.binary id op (.constant a) (.constant b)) err
  | unassignable {id : NodeId} {x : Identifier} {v : Expr} :
      env.contains x.name = false →
      Blocked env (.assign id x v) (.undeclared .assigning x.name)
  | assigned {id : NodeId} {x : Identifier} {v : Expr} {err : EvalError} :
      env.contains x.name = true → v.constant? = none → Blocked env v err →
      Blocked env (.assign id x v) err
  | store {id : NodeId} {x : Identifier} {c : Constant} {err : EvalError} :
      env.contains x.name = true → c.value.storable x.name = .error err →
      Blocked env (.assign id x (.constant c)) err
  | unaddable {id : NodeId} {x : Identifier} {v : Expr} :
      env.find? x.name = none → Blocked env (.addAssign id x v) (.undeclared .adding x.name)
  | added {id : NodeId} {x : Identifier} {v : Expr} {b : Constant}
      {err : EvalError} :
      env.find? x.name = some b → v.constant? = none → Blocked env v err →
      Blocked env (.addAssign id x v) err
  | base {id : NodeId} {x : Identifier} {b c : Constant} {err : EvalError} :
      env.find? x.name = some b → b.value.number = .error err →
      Blocked env (.addAssign id x (.constant c)) err
  | delta {id : NodeId} {x : Identifier} {b c : Constant} {m : Int64}
      {err : EvalError} :
      env.find? x.name = some b → b.value.number = .ok m → c.value.number = .error err →
      Blocked env (.addAssign id x (.constant c)) err
  | unincrementable {id : NodeId} {x : Identifier} :
      env.find? x.name = none →
      Blocked env (.increment id x) (.undeclared .incrementing x.name)
  | increment {id : NodeId} {x : Identifier} {b : Constant} {err : EvalError} :
      env.find? x.name = some b → b.value.number = .error err →
      Blocked env (.increment id x) err
  | argument {id : NodeId} {f : Identifier} {done rest : List Expr} {e : Expr}
      {err : EvalError} :
      Settled done → e.constant? = none → Blocked env e err →
      Blocked env (.invoke id f (done ++ e :: rest)) err
  | function {id : NodeId} {f : Identifier} {args : List Expr} :
      Settled args → f.name ≠ "printf" →
      Blocked env (.invoke id f args) (.unsupportedFunction f.name)
  | print {id : NodeId} {f : Identifier} {args : List Expr} {err : EvalError} :
      Settled args → f.name = "printf" → printf (Expr.values args) = .error err →
      Blocked env (.invoke id f args) err

namespace Expr

variable {env : Env} {e : Expr} {s s' : Supply} {x : Reduction} {err : EvalError}

/-! ## The rules and the function -/

/-- A list is settled when its first member is a constant and the others are settled. -/
theorem settled_cons {e : Expr} {es : List Expr} :
    Settled (e :: es) ↔ e.constant? ≠ none ∧ Settled es := by
  simp [Settled]

/-- A list of expressions is settled, or has a first member that is no constant. -/
theorem settled_or_split (es : List Expr) :
    Settled es ∨ ∃ done e rest, es = done ++ e :: rest ∧ Settled done ∧ e.constant? = none := by
  induction es with
  | nil => exact .inl (by simp [Settled])
  | cons e es ih =>
    by_cases he : e.constant? = none
    · exact .inr ⟨[], e, es, rfl, by simp [Settled], he⟩
    · rcases ih with hall | ⟨done, e', rest, rfl, hdone, he'⟩
      · exact .inl (settled_cons.mpr ⟨he, hall⟩)
      · exact .inr ⟨e :: done, e', rest, rfl, settled_cons.mpr ⟨he, hdone⟩, he'⟩

/-- Reducing a checked expression gives a checked one. -/
theorem Reduces.checked (h : Reduces env e s x s') (he : e.Checked) : x.expr.Checked := by
  induction h with
  | read | decided | apply | assign | add | increment | print => simp
  | left _ _ ih => exact ⟨he.1, ih he.2.1, he.2.2⟩
  | right _ _ _ ih => exact ⟨he.1, he.2.1, ih he.2.2⟩
  | assigned _ _ _ ih => exact ⟨he.1, ih he.2⟩
  | added _ _ _ ih => exact ⟨he.1, ih he.2⟩
  | argument _ _ _ ih =>
    refine ⟨he.1, ?_⟩
    have hargs := he.2
    simp only [allChecked_iff, List.mem_append, List.mem_cons] at hargs ⊢
    rintro a (ha | rfl | ha)
    · exact hargs a (.inl ha)
    · exact ih (hargs _ (.inr (.inl rfl)))
    · exact hargs a (.inr (.inr ha))

/-- A constant does not reduce. -/
theorem Reduces.constant?_eq_none (h : Reduces env e s x s') : e.constant? = none := by
  cases h <;> rfl

/-- A blocked expression is no constant. -/
theorem Blocked.constant?_eq_none (h : Blocked env e err) : e.constant? = none := by
  cases h <;> rfl

attribute [simp] reduce reduceArgs

/-- A reduced part goes back into its place if the replacement accepts it. -/
theorem within_apply {rewrap : Operand → Build NodeError Expr}
    (h : rewrap (.expr x.expr) s = .ok (e, s')) :
    x.within rewrap s = .ok (⟨e, x.env, x.output⟩, s') := by
  simp [Reduction.within, Build.mapError, h, Except.mapError]

/-- Arguments are reduced at the first one that is not settled. -/
private theorem reduceArgs_split {done rest : List Expr} (hdone : Settled done)
    (he : e.constant? = none) :
    reduceArgs env (done ++ e :: rest) s =
      match e.reduce env s with
      | .error err => .error err
      | .ok (x, s') => .ok (some (done.length, x), s') := by
  induction done with
  | nil =>
    simp only [List.nil_append, reduceArgs, he, Build.bind_apply]
    cases e.reduce env s <;> rfl
  | cons a done ih =>
    obtain ⟨ha, hdone⟩ := settled_cons.mp hdone
    obtain ⟨c, hc⟩ := Option.ne_none_iff_exists'.mp ha
    simp only [List.cons_append, reduceArgs, hc, Build.bind_apply, ih hdone]
    cases e.reduce env s <;> rfl

/-- Settled arguments are not reduced. -/
private theorem reduceArgs_settled {args : List Expr} (hargs : Settled args) :
    reduceArgs env args s = .ok (none, s) := by
  induction args with
  | nil => rfl
  | cons a args ih =>
    obtain ⟨ha, hargs⟩ := settled_cons.mp hargs
    obtain ⟨c, hc⟩ := Option.ne_none_iff_exists'.mp ha
    simp [hc, Build.bind_apply, ih hargs]

/-- A rule that applies to a checked expression is what the function does. -/
theorem Reduces.reduce_eq (h : Reduces env e s x s') (he : e.Checked) :
    e.reduce env s = .ok (x, s') := by
  induction h with
  | read hfind => simp [Build.read_apply_some hfind]
  | @left id _ l _ _ s' _ hl h ih =>
    have hwithin := within_apply (withLeft_apply id l he.1 (h.checked he.2.1) he.2.2 s')
    simp [hl, ih he.2.1, hwithin]
  | decided hop => simp [hop]
  | @right id _ _ r _ s' _ hop hr h ih =>
    have hwithin := within_apply (withRight_apply id r he.1 (h.checked he.2.2) he.2.1 s')
    simp [hop, hr, ih he.2.2, hwithin]
  | apply hop happly => simp [hop, happly]
  | @assigned id x v _ s' _ hx hv h ih =>
    have hwithin := within_apply (withValue_assign_apply id x v (h.checked he.2) s')
    simp [hx, hv, ih he.2, hwithin]
  | assign hx hstore => simp [hx, hstore]
  | @added id x v _ _ s' _ hx hv h ih =>
    have hwithin := within_apply (withValue_addAssign_apply id x v (h.checked he.2) s')
    simp [hx, hv, ih he.2, hwithin]
  | add hx hm hn => simp [hx, hm, hn]
  | increment hx hn => simp [hx, hn]
  | @argument id f done rest e s s' x hdone hnone h ih =>
    have hchecked := allChecked_iff.mp he.2 e (by simp)
    have hwithin := within_apply (withArgument_apply id f he.2 (h.checked hchecked) s')
    simp [reduceArgs_split hdone hnone, ih hchecked, hwithin]
  | print hargs hf htext => simp [reduceArgs_settled hargs, hf, htext]

/-- A way of being stuck that applies to a checked expression is what the function
reports. -/
theorem Blocked.reduce_eq (h : Blocked env e err) (he : e.Checked) (s : Supply) :
    e.reduce env s = .error err := by
  induction h with
  | read hfind => simp [Build.read_apply_none hfind]
  | left hl _ ih => simp [hl, ih he.2.1]
  | undecided hop => simp [hop]
  | right hop hr _ ih => simp [hop, hr, ih he.2.2]
  | apply hop happly => simp [hop, happly]
  | unassignable hx => simp [hx]
  | assigned hx hv _ ih => simp [hx, hv, ih he.2]
  | store hx hstore => simp [hx, hstore]
  | unaddable hx => simp [hx]
  | added hx hv _ ih => simp [hx, hv, ih he.2]
  | base hx hm => simp [hx, hm]
  | delta hx hm hn => simp [hx, hm, hn]
  | unincrementable hx => simp [hx]
  | increment hx hn => simp [hx, hn]
  | @argument id f done rest e err hdone hnone _ ih =>
    have hchecked := allChecked_iff.mp he.2 e (by simp)
    simp [reduceArgs_split hdone hnone, ih hchecked]
  | function hargs hf => simp [reduceArgs_settled hargs, hf]
  | print hargs hf htext => simp [reduceArgs_settled hargs, hf, htext]

/-- A checked expression that is no constant reduces or is stuck. -/
theorem reduces_or_blocked (he : e.Checked) (hnone : e.constant? = none) (env : Env)
    (s : Supply) :
    (∃ x s', Reduces env e s x s') ∨ ∃ err, Blocked env e err := by
  induction e using Expr.induct with
  | identifier i =>
    cases hfind : env.find? i.name with
    | none => exact .inr ⟨_, .read hfind⟩
    | some c => exact .inl ⟨_, _, .read hfind⟩
  | constant c => cases hnone
  | binary id op l r ihl ihr =>
    cases hl : l.constant? with
    | none =>
      rcases ihl he.2.1 hl with ⟨x, s', h⟩ | ⟨err, h⟩
      · exact .inl ⟨_, _, .left hl h⟩
      · exact .inr ⟨_, .left hl h⟩
    | some a =>
      obtain rfl := constant?_eq_some_iff.mp hl
      cases hop : op.decided a.value with
      | error err => exact .inr ⟨_, .undecided hop⟩
      | ok t =>
        cases t with
        | true => exact .inl ⟨_, _, .decided hop⟩
        | false =>
          cases hr : r.constant? with
          | none =>
            rcases ihr he.2.2 hr with ⟨x, s', h⟩ | ⟨err, h⟩
            · exact .inl ⟨_, _, .right hop hr h⟩
            · exact .inr ⟨_, .right hop hr h⟩
          | some b =>
            obtain rfl := constant?_eq_some_iff.mp hr
            cases happly : op.apply a.value b.value with
            | error err => exact .inr ⟨_, .apply hop happly⟩
            | ok t => exact .inl ⟨_, _, .apply hop happly⟩
  | assign id x v ih =>
    cases hx : env.contains x.name with
    | false => exact .inr ⟨_, .unassignable hx⟩
    | true =>
      cases hv : v.constant? with
      | none =>
        rcases ih he.2 hv with ⟨y, s', h⟩ | ⟨err, h⟩
        · exact .inl ⟨_, _, .assigned hx hv h⟩
        · exact .inr ⟨_, .assigned hx hv h⟩
      | some c =>
        obtain rfl := constant?_eq_some_iff.mp hv
        cases hstore : c.value.storable x.name with
        | error err => exact .inr ⟨_, .store hx hstore⟩
        | ok _ => exact .inl ⟨_, _, .assign hx hstore⟩
  | addAssign id x v ih =>
    cases hx : env.find? x.name with
    | none => exact .inr ⟨_, .unaddable hx⟩
    | some b =>
      cases hv : v.constant? with
      | none =>
        rcases ih he.2 hv with ⟨y, s', h⟩ | ⟨err, h⟩
        · exact .inl ⟨_, _, .added hx hv h⟩
        · exact .inr ⟨_, .added hx hv h⟩
      | some c =>
        obtain rfl := constant?_eq_some_iff.mp hv
        cases hm : b.value.number with
        | error err => exact .inr ⟨_, .base hx hm⟩
        | ok m =>
          cases hn : c.value.number with
          | error err => exact .inr ⟨_, .delta hx hm hn⟩
          | ok n => exact .inl ⟨_, _, .add hx hm hn⟩
  | increment id x =>
    cases hx : env.find? x.name with
    | none => exact .inr ⟨_, .unincrementable hx⟩
    | some b =>
      cases hn : b.value.number with
      | error err => exact .inr ⟨_, .increment hx hn⟩
      | ok n => exact .inl ⟨_, _, .increment hx hn⟩
  | invoke id f args ih =>
    rcases settled_or_split args with hargs | ⟨done, a, rest, rfl, hdone, ha⟩
    · by_cases hf : f.name = "printf"
      · cases htext : printf (values args) with
        | error err => exact .inr ⟨_, .print hargs hf htext⟩
        | ok text => exact .inl ⟨_, _, .print hargs hf htext⟩
      · exact .inr ⟨_, .function hargs hf⟩
    · have hmem : a ∈ done ++ a :: rest := by simp
      rcases ih a hmem (allChecked_iff.mp he.2 a hmem) ha with ⟨y, s', h⟩ | ⟨err, h⟩
      · exact .inl ⟨_, _, .argument hdone ha h⟩
      · exact .inr ⟨_, .argument hdone ha h⟩
  | hole v => exact absurd he (by simp)

/-- On checked expressions the rules of reduction say what the function computes. -/
theorem reduce_eq_ok_iff (he : e.Checked) :
    e.reduce env s = .ok (x, s') ↔ Reduces env e s x s' := by
  constructor
  · intro h
    have hnone : e.constant? = none := by
      cases e with
      | constant c => simp at h
      | _ => rfl
    rcases reduces_or_blocked he hnone env s with ⟨y, t, hy⟩ | ⟨err, herr⟩
    · have heq := hy.reduce_eq he
      rw [h] at heq
      cases heq
      exact hy
    · rw [herr.reduce_eq he s] at h
      cases h
  · intro h
    exact h.reduce_eq he

/-- On checked expressions the ways of being stuck are the errors of the function. -/
theorem reduce_eq_error_iff (he : e.Checked) (hnone : e.constant? = none) :
    e.reduce env s = .error err ↔ Blocked env e err := by
  constructor
  · intro h
    rcases reduces_or_blocked he hnone env s with ⟨y, t, hy⟩ | ⟨err', herr⟩
    · rw [hy.reduce_eq he] at h
      cases h
    · have heq := herr.reduce_eq he s
      rw [h] at heq
      cases heq
      exact herr
  · intro h
    exact h.reduce_eq he s

/-! ## What a reduction keeps -/

/-- A reduction assigns to names in scope only, so the names in scope stay. -/
theorem Reduces.names (h : Reduces env e s x s') : x.env.names = env.names := by
  induction h with
  | read | decided | apply | print => rfl
  | left _ _ ih | right _ _ _ ih | assigned _ _ _ ih | added _ _ _ ih | argument _ _ _ ih =>
    exact ih
  | assign hx _ => exact Env.names_insert_of_mem _ (Env.contains_iff_mem_names.mp hx)
  | add hx _ _ | increment hx _ => exact Env.names_insert_of_mem _ (Env.mem_names_of_find? hx)

/-- A reduction gives out at least one identity. -/
theorem Reduces.supply_lt (h : Reduces env e s x s') : s.node < s'.node := by
  induction h with
  | read | decided | apply | assign | print => exact Nat.lt_succ_self _
  | add => exact Nat.lt_add_of_pos_right (Nat.succ_pos 1)
  | increment => exact Nat.lt_add_of_pos_right (Nat.succ_pos 2)
  | left _ _ ih | right _ _ _ ih | assigned _ _ _ ih | added _ _ _ ih | argument _ _ _ ih =>
    exact Nat.lt_succ_of_lt ih

end Expr

/-! ## Errors of reduction -/

/-- The errors that the evaluation of a checked program can end with: a name that is
not in scope is used, though never by leaving its scope, a name is declared
twice, a function is not supported, or a constant does not fit. -/
def EvalError.Foreseen : EvalError → Prop
  | .undeclared use _ => use ≠ .leaving
  | .alreadyDeclared _ => True
  | .unsupportedFunction _ => True
  | err => err.errorClass = .invalidConstant

/-- A value without truth fails in a way that is foreseen. -/
theorem Value.truth_error {v : Value} {err : EvalError} (h : v.truth = .error err) :
    err.Foreseen := by
  unfold Value.truth at h
  split at h
  · cases h
  · cases h
    rfl

theorem Value.number_error {v : Value} {err : EvalError} (h : v.number = .error err) :
    err.Foreseen := by
  unfold Value.number at h
  split at h
  · cases h
  · cases h
    rfl

theorem Value.storable_error {v : Value} {name : String} {err : EvalError}
    (h : v.storable name = .error err) : err.Foreseen := by
  unfold Value.storable at h
  split at h
  · cases h
    rfl
  · cases h

/-- A left operand that cannot decide fails in a way that is foreseen. -/
theorem BinaryOp.decided_error {op : BinaryOp} {v : Value} {err : EvalError}
    (h : op.decided v = .error err) : err.Foreseen := by
  unfold BinaryOp.decided at h
  split at h
  · cases ht : v.truth with
    | error err' =>
      rw [ht] at h
      cases h
      exact Value.truth_error ht
    | ok b =>
      rw [ht] at h
      cases h
  · cases h

/-- A known operator fails in a way that is foreseen; both comparisons take the left number first.
-/
theorem BinaryOp.apply_error {op : BinaryOp} {v w : Value} {err : EvalError}
    (hop : op.known = true) (h : op.apply v w = .error err) : err.Foreseen := by
  have hnumbers : ∀ f : Int64 → Int64 → Bool,
      (do let l ← v.number; let r ← w.number; return f l r : Except EvalError Bool) = .error err →
        err.Foreseen := by
    intro f hf
    cases hl : v.number with
    | error err' =>
      rw [hl] at hf
      cases hf
      exact Value.number_error hl
    | ok l =>
      cases hr : w.number with
      | error err' =>
        rw [hl, hr] at hf
        cases hf
        exact Value.number_error hr
      | ok r =>
        rw [hl, hr] at hf
        cases hf
  cases op with
  | and => exact Value.truth_error h
  | le => exact hnumbers _ h
  | eq => exact hnumbers _ h
  | other code => simp [BinaryOp.known] at hop

/-- A value that cannot be printed fails in a way that is foreseen. -/
theorem Value.printed_error {v : Value} {err : EvalError} (h : v.printed = .error err) :
    err.Foreseen := by
  cases v <;> cases h <;> rfl

/-- A call that cannot print fails in a way that is foreseen. -/
theorem printf_error {values : List Value} {err : EvalError} (h : printf values = .error err) :
    err.Foreseen := by
  unfold printf at h
  split at h
  · cases h
    rfl
  · split at h
    · cases h
    · rename_i v _
      cases hv : v.printed with
      | error err' =>
        simp only [hv, bind, Except.bind, Except.error.injEq] at h
        exact h ▸ Value.printed_error hv
      | ok text => simp [hv, bind, Except.bind, pure, Except.pure] at h
  · cases h
    rfl

namespace Expr

variable {env : Env} {e : Expr} {err : EvalError}

/-- The reduction of a checked expression fails in foreseen ways only. -/
theorem Blocked.foreseen (h : Blocked env e err) (he : e.Checked) : err.Foreseen := by
  induction h with
  | read | unassignable | unaddable | unincrementable => simp [EvalError.Foreseen]
  | left _ _ ih => exact ih he.2.1
  | undecided hop => exact BinaryOp.decided_error hop
  | right _ _ _ ih => exact ih he.2.2
  | apply _ happly => exact BinaryOp.apply_error he.1 happly
  | assigned _ _ _ ih | added _ _ _ ih => exact ih he.2
  | store _ hstore => exact Value.storable_error hstore
  | base _ hm => exact Value.number_error hm
  | delta _ _ hn => exact Value.number_error hn
  | increment _ hn => exact Value.number_error hn
  | argument _ _ _ ih => exact ih (allChecked_iff.mp he.2 _ (by simp))
  | function => trivial
  | print _ _ htext => exact printf_error htext

end Expr

end Stepwise
