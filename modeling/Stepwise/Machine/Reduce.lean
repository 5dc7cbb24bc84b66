import Stepwise.Machine.Env
import Stepwise.Machine.Error
import Stepwise.Syntax.Update

/-!
# Machine - Reducing expressions

One reduction replaces the innermost, leftmost part of an expression that is not
yet a constant.  Operands are evaluated from left to right; the right operand of
`&&` only when the left one is true.  A name that is assigned to must be in
scope before its new value is evaluated.

Main definitions:

- `Expr.reduce`, one reduction of an expression in an environment.
- `BinaryOp.apply` and `printf`, the two primitive computations.
- `Expr.redex` and `Stmt.redex`, the part that the next step reduces.
-/

namespace Stepwise

/-! ## Primitive computations -/

/-- The truth of a value, or the error that it has none. -/
def Value.truth (v : Value) : Except EvalError Bool :=
  match v.truthy? with
  | some b => .ok b
  | none => .error (.noTruth v.datatype)

/-- The number a value counts as, or the error that it has none. -/
def Value.number (v : Value) : Except EvalError Int64 :=
  match v.numeric? with
  | some n => .ok n
  | none => .error (.noNumber v.datatype)

namespace BinaryOp

/-- Whether the left operand alone decides the result, which is then false. -/
def decided (op : BinaryOp) (left : Value) : Except EvalError Bool :=
  match op with
  | and => do return !(← left.truth)
  | _ => .ok false

/-- The result of an operator whose left operand did not decide. -/
def apply (op : BinaryOp) (left right : Value) : Except EvalError Bool :=
  match op with
  | and => right.truth
  | le => do
    let l ← left.number
    let r ← right.number
    return decide (l ≤ r)
  | eq => do
    let l ← left.number
    let r ← right.number
    return l == r
  | other code => .error (.unhandledOperator code)

end BinaryOp

/-- Whether a value can be stored in a variable. -/
def Value.storable (v : Value) (name : String) : Except EvalError Unit :=
  if v.datatype = .void then .error (.storingVoid name) else .ok ()

/-- Replace the first `%d` of a template, leaving what was inserted alone. -/
def fillFirst (value : List Char) : List Char → List Char
  | [] => []
  | '%' :: 'd' :: cs => value ++ cs
  | c :: cs => c :: fillFirst value cs

/-- How a value is printed by `%d`. -/
def Value.printed : Value → Except EvalError String
  | int n => .ok (toString n.toInt)
  | string s => .ok s
  | null => .ok "(null)"
  | v => .error (.badArgument v.datatype)

/-- The text a call of `printf` prints.  Only the first `%d` of the template is
filled, by the second argument; further arguments are ignored. -/
def printf : List Value → Except EvalError String
  | [] => .error .noFormat
  | .string format :: args =>
    match args with
    | [] => .ok format
    | v :: _ => do return String.ofList (fillFirst (← v.printed).toList format.toList)
  | v :: _ => .error (.badFormat v.datatype v.text)

/-! ## Reduction -/

/-- The outcome of one reduction: what the expression became, the environment
after it and the text it printed. -/
structure Reduction where
  expr : Expr
  env : Env
  output : String
  deriving Inhabited

/-- The reduction of a part as one of the whole: what the part became goes back
into its place, with the checks of a replacement. -/
def Reduction.within (x : Reduction) (rewrap : Operand → Build NodeError Expr) :
    Build EvalError Reduction := do
  return { x with expr := ← (rewrap (.expr x.expr)).mapError .node }

/-- Why an empty place cannot be reduced.  Where the parts of its variant matter
they are needed and missing. -/
def unreducible : Option Variant → NodeError
  | none => .unsupported .reducing .absent
  | some v =>
    match v with
    | .identifier | .binary | .assign | .addAssign | .increment | .invoke => .vacancy
    | v => .unsupported .reducing (.of v)

/-- The values of arguments that are all constants. -/
def Expr.values : List Expr → List Value
  | [] => []
  | .constant c :: es => c.value :: Expr.values es
  | _ :: es => Expr.values es

mutual

/-- One reduction of an expression. -/
def Expr.reduce (env : Env) : Expr → Build EvalError Reduction
  | .identifier i => do
    match ← env.read i.name with
    | some c => return ⟨.constant c, env, ""⟩
    | none => throw (.undeclared .reading i.name)
  | .constant _ => throw (.node (.unsupported .reducing (.of .constant)))
  | .binary id op l r =>
    match l.constant? with
    | none => do (← l.reduce env).within (Expr.withLeft (.binary id op l r))
    | some a => do
      if ← Build.ofExcept (op.decided a.value) then
        return ⟨← Build.literal (.ofBool false), env, ""⟩
      match r.constant? with
      | none => (← r.reduce env).within (Expr.withRight (.binary id op l r))
      | some b =>
        let result ← Build.ofExcept (op.apply a.value b.value)
        return ⟨← Build.literal (.ofBool result), env, ""⟩
  | .assign id x v => do
    unless env.contains x.name do throw (.undeclared .assigning x.name)
    match v.constant? with
    | none => (← v.reduce env).within (Expr.withValue (.assign id x v))
    | some c =>
      Build.ofExcept (c.value.storable x.name)
      return ⟨v, ← env.bind x.name c, ""⟩
  | .addAssign id x v => do
    match env.find? x.name with
    | none => throw (.undeclared .adding x.name)
    | some current =>
      match v.constant? with
      | none => (← v.reduce env).within (Expr.withValue (.addAssign id x v))
      | some c =>
        let base ← Build.ofExcept current.value.number
        let delta ← Build.ofExcept c.value.number
        let sum ← Build.constant (.int (base + delta))
        return ⟨.constant sum, ← env.bind x.name sum, ""⟩
  | .increment _ x => do
    match env.find? x.name with
    | none => throw (.undeclared .incrementing x.name)
    | some current =>
      let n ← Build.ofExcept current.value.number
      let env ← env.bind x.name (← Build.constant (.int (n + 1)))
      return ⟨← Build.literal (.int n), env, ""⟩
  | .invoke id f args => do
    match ← Expr.reduceArgs env args with
    | some (i, x) => x.within (Expr.withArgument (.invoke id f args) i)
    | none =>
      if f.name = "printf" then
        let text ← Build.ofExcept (printf (Expr.values args))
        return ⟨← Build.literal .void, env, text⟩
      else throw (.unsupportedFunction f.name)
  | .hole reserved => throw (.node (unreducible reserved))

/-- One reduction of the first argument that is not yet a constant, with its
position, if there is one. -/
def Expr.reduceArgs (env : Env) : List Expr → Build EvalError (Option (Nat × Reduction))
  | [] => pure none
  | e :: es =>
    match e.constant? with
    | some _ => do
      match ← Expr.reduceArgs env es with
      | some (i, x) => return some (i + 1, x)
      | none => return none
    | none => do return some (0, ← e.reduce env)

end

/-! ## The part to be reduced -/

mutual

/-- The part of an expression that the next reduction replaces; a hole that it
comes to first. -/
def Expr.redex : Expr → Expr
  | .binary id op l r =>
    match l.constant? with
    | none => l.redex
    | some a =>
      if op = .and ∧ a.value.truthy? = some false then .binary id op l r
      else
        match r.constant? with
        | none => r.redex
        | some _ => .binary id op l r
  | .assign id x v =>
    match v.constant? with
    | none => v.redex
    | some _ => .assign id x v
  | .addAssign id x v =>
    match v.constant? with
    | none => v.redex
    | some _ => .addAssign id x v
  | .invoke id f args => (Expr.redexArgs args).getD (.invoke id f args)
  | e => e

/-- The part of the first argument that is not yet a constant that the next
reduction replaces. -/
def Expr.redexArgs : List Expr → Option Expr
  | [] => none
  | e :: es =>
    match e.constant? with
    | none => some e.redex
    | some _ => Expr.redexArgs es

end

/-- The part of an expression held by a statement that the next step reduces;
a constant is left to the statement. -/
def Expr.redex? (e : Expr) : Option Node :=
  match e.constant? with
  | none => some (.expr e.redex)
  | some _ => none

/-- The part of a statement that the next step reduces: the statement itself
when its expression is evaluated or there is none. -/
def Stmt.redex : Stmt → Node
  | .expression id v => (v.bind Expr.redex?).getD (.stmt (.expression id v))
  | .declaration id t x v => (v.bind Expr.redex?).getD (.stmt (.declaration id t x v))
  | .condJump id c t f o => c.redex?.getD (.stmt (.condJump id c t f o))
  | s => .stmt s

/-- The part of a node that the next step reduces. -/
def Node.redex : Node → Node
  | .expr e => .expr e.redex
  | .stmt s => s.redex

namespace Operand

/-- An operand that the next step comes to.  An empty place reserved for a variant
whose parts matter cannot be gone into. -/
def reached : Operand → Except NodeError Operand
  | .empty => .ok .empty
  | .filled n => .ok (.filled n)
  | .vacant v =>
    match v with
    | .expression | .declaration | .condJump | .binary | .assign | .addAssign | .invoke =>
      .error .vacancy
    | v => .ok (.vacant v)

/-- The part of an operand that the next step reduces. -/
def redex : Operand → Except NodeError Operand
  | .filled n => (node n.redex).reached
  | slot => slot.reached

/-- One reduction of an operand. -/
def reduce (env : Env) : Operand → Build EvalError Reduction
  | .filled (.expr e) => e.reduce env
  | .filled (.stmt s) => throw (.node (.unsupported .reducing s.kind))
  | .empty => throw (.node (unreducible none))
  | .vacant v => throw (.node (unreducible (some v)))

end Operand

end Stepwise
