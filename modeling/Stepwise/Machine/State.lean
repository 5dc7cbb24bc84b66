import Stepwise.Machine.Reduce

/-!
# Machine - States and steps

A state of a running program: the lowered program, the place of the current
statement in it, that statement as reduced so far, the variables in scope and
everything printed.  A step performs one reduction and gives a new state, so
earlier states stay valid.

Main definitions:

- `State.init`, `State.step` and `State.run`.
- `State.moveTo` and `State.jumpTo`, the two ways the current place changes.
-/

namespace Stepwise

/-- A state of a running program.  The active statement starts out as the
current statement and is reduced until the place moves; it is empty once the
program is done. -/
structure State where
  program : List (Slot Stmt)
  pc : Nat
  active : Slot Stmt
  env : Env
  output : String
  supply : Supply
  deriving Inhabited

/-- Whether a place for a statement holds or is reserved for a label. -/
def Slot.isLabel : Slot Stmt → Bool
  | .filled s => s.isLabel
  | .vacant v => v == .label
  | .empty => false

namespace State

/-- Whether the program has terminated. -/
def done (s : State) : Bool :=
  s.program.length ≤ s.pc

/-- The current statement; there is none once the program is done. -/
def current (s : State) : Slot Stmt :=
  s.program.getD s.pc .empty

/-- The first place from `i` on that is no label. -/
def skipLabels (program : List (Slot Stmt)) (i : Nat) : Nat :=
  i + ((program.drop i).takeWhile Slot.isLabel).length

/-- Go on with the first statement from `i` on that is no label. -/
def moveTo (s : State) (i : Nat) : State :=
  let pc := skipLabels s.program i
  { s with pc, active := s.program.getD pc .empty }

/-- Whether a place for a statement holds a given label. -/
def holdsLabel (target : Label) : Slot Stmt → Bool
  | .filled (.label l) => l.id == target.id
  | _ => false

/-- Go on after a label. -/
def jumpTo (s : State) (target : Label) : Except EvalError State :=
  match s.program.findIdx? (holdsLabel target) with
  | some i => .ok (s.moveTo i)
  | none => .error (.missingLabel target.name)

/-- The state before the first step of a program. -/
def init (program : List (Slot Stmt)) (supply : Supply) : State :=
  moveTo ⟨program, 0, .empty, .empty, "", supply⟩ 0

/-- Reduce an expression of the active statement and put the result back. -/
def reduceIn (s : State) (e : Expr) (rewrap : Operand → Build NodeError Stmt) :
    Except EvalError State :=
  match e.reduce s.env s.supply with
  | .error err => .error err
  | .ok (x, supply) =>
    match rewrap (.expr x.expr) supply with
    | .error err => .error (.node err)
    | .ok (active, supply) =>
      .ok { s with
        active := .filled active
        env := x.env
        output := s.output ++ x.output
        supply }

/-- Bind a name to a copy of a value and go on with the next statement. -/
def declare (s : State) (name : String) (value : Value) : State :=
  { s with env := s.env.insert name ⟨s.supply.node, value⟩, supply := s.supply.next }.moveTo
    (s.pc + 1)

/-- The step of a declaration whose initializer is evaluated. -/
def declareChecked (s : State) (name : String) (value : Except EvalError Value) :
    Except EvalError State :=
  if s.env.contains name then .error (.alreadyDeclared name)
  else
    match value with
    | .error err => .error err
    | .ok v => .ok (s.declare name v)

/-- A value as the initial value of a variable. -/
def initialValue (name : String) (value : Value) : Except EvalError Value :=
  match value.storable name with
  | .error err => .error err
  | .ok () => .ok value

/-- The step of an active statement. -/
def stepStmt (s : State) (stmt : Stmt) : Except EvalError State :=
  match stmt with
  | .expression _ none => .ok (s.moveTo (s.pc + 1))
  | .expression _ (some e) =>
    match e.constant? with
    | some _ => .ok (s.moveTo (s.pc + 1))
    | none => s.reduceIn e stmt.withValue
  | .declaration _ t x none => s.declareChecked x.name (.ok (.zero t))
  | .declaration _ _ x (some e) =>
    match e.constant? with
    | some c => s.declareChecked x.name (initialValue x.name c.value)
    | none => s.reduceIn e stmt.withValue
  | .undeclaration _ x =>
    match s.env.unbind? x.name with
    | some env => .ok ({ s with env }.moveTo (s.pc + 1))
    | none => .error (.undeclared .leaving x.name)
  | .jump _ target => s.jumpTo target
  | .condJump _ c t f _ =>
    match c.constant? with
    | some k =>
      match k.value.truth with
      | .error err => .error err
      | .ok b => s.jumpTo (if b then t else f)
    | none => s.reduceIn c stmt.withCondition
  | stmt => .error (.node (.unsupported .stepping stmt.kind))

/-- One step. -/
def step (s : State) : Except EvalError State :=
  if s.done then .error .terminated
  else
    match s.active with
    | .filled stmt => s.stepStmt stmt
    | .empty => .error (.node (.unsupported .stepping .absent))
    | .vacant v =>
      match v with
      | .expression | .declaration | .undeclaration | .jump | .condJump =>
        .error (.node .vacancy)
      | v => .error (.node (.unsupported .stepping (.of v)))

/-! ## Runs -/

/-- The end of a run: the last state, the number of steps taken and the error
that stopped it, if one did. -/
structure Stop where
  state : State
  steps : Nat
  error : Option EvalError
  deriving Inhabited

/-- Step until the program terminates or fails, or until a positive limit is
reached; `steps` were taken before.  There is no answer while `fuel` steps do
not suffice. -/
def runFrom (limit : Int) (steps : Nat) (s : State) : Nat → Option Stop
  | 0 => none
  | fuel + 1 =>
    if s.done then some ⟨s, steps, none⟩
    else if 0 < limit ∧ limit ≤ steps then some ⟨s, steps, some (.stepLimit steps)⟩
    else
      match s.step with
      | .error err => some ⟨s, steps, some err⟩
      | .ok s' => runFrom limit (steps + 1) s' fuel

/-- Fuel for a run.  A positive limit stops every run within it; a run without a
limit gets more fuel than can be spent. -/
def fuelFor (limit : Int) : Nat :=
  if 0 < limit then limit.toNat + 1 else Nat.pow 2 60

/-- Step until the program terminates, fails or reaches a positive limit. -/
def run (s : State) (limit : Int) (fuel : Nat) : Option Stop :=
  s.runFrom limit 0 fuel

end State

end Stepwise
