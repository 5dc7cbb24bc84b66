import Stepwise.Machine.State
import Stepwise.Syntax.Substitute
import Stepwise.View.Range

/-!
# View - What is shown for one state

The source of a program with the statement being evaluated put in its place, the
tokens of that statement and, inside them, the tokens of the part that the next
step reduces.  A conditional jump stands for the condition of the statement it
comes from.  Jumps and undeclarations have no counterpart in the source.

Main definitions:

- `View`, the tokens with the two ranges.
- `highlight`, the view of a tree for a statement, its evaluated form and a
  part of it.
- `State.view`, the view of a tree in a state.
-/

namespace Stepwise

/-- What is shown for one state. -/
structure View where
  tokens : List Token
  /-- The tokens of the statement being evaluated, where it is shown. -/
  range : Option Range
  /-- The tokens of the part that the next step reduces. -/
  focus : Option Range
  deriving DecidableEq, Repr, Inhabited

/-- What is replaced in the tree, and by what. -/
structure Replacement where
  target : Operand
  repl : Operand
  deriving Inhabited

/-- The node of the source tree that a statement stands for, and what to show in
its place. -/
def replacementFor (statement : Slot Stmt) (active : Operand) :
    Except NodeError Replacement :=
  match statement with
  | .empty => .ok ⟨.empty, .empty⟩
  | .vacant .condJump => .error .vacancy
  | .vacant v => .ok ⟨.vacant v, active⟩
  | .filled (.condJump _ cond _ _ origin) => do
    let target ←
      match origin with
      | .ifThen _ c _ => .ok (Operand.expr c)
      | .expression _ v => .ok (Operand.optional v)
      | s => .error (.unsupported .locatingCondition s.kind)
    match active with
    | .filled (.stmt (.condJump _ c _ _ _)) => .ok ⟨target, .expr c⟩
    | .vacant .condJump => .error .vacancy
    | _ => .ok ⟨target, .expr cond⟩
  | .filled s => .ok ⟨.stmt s, active⟩

/-- A top-level statement after the replacement. -/
def substituteTop (target repl : Operand) (s : Slot Stmt) : Build NodeError (Slot Stmt) := do
  match ← Operand.substitute (s.map .stmt) target repl with
  | .filled (.stmt s') => return .filled s'
  | .vacant v =>
    if v.isStmt then return .vacant v
    else
      match Operand.kind? (.vacant v) with
      | some kind => throw (.topLevel kind)
      | none => throw .vacancy
  | .filled (.expr e) => throw (.topLevel e.kind)
  | .empty => throw (.topLevel .absent)

/-- The view of fragments in which an operand and a part of it are marked. -/
def View.ofFragments (frags : List Fragment) (repl focus : Operand) : View :=
  match findRange frags repl with
  | none => ⟨tagTokens frags, none, none⟩
  | some r =>
    ⟨tagTokens frags, some (tokenRange r frags),
      (findRangeWithin frags focus r).map (tokenRange · frags)⟩

/-- The view of a tree with `statement` replaced by `active`, its evaluated
form, and with `focus`, a part of `active`, marked.  A focus that is all of
`active` stands for the whole replacement. -/
def highlightSlots (tree : List (Slot Stmt)) (statement : Slot Stmt) (active focus : Operand) :
    Build NodeError View := do
  let r ← Build.ofExcept (replacementFor statement active)
  let focus := if focus.same active then r.repl else focus
  if tree.any fun s => Operand.contains (s.map .stmt) r.target then
    let evaluated ← tree.mapM (substituteTop r.target r.repl)
    return .ofFragments (← Build.ofExcept (renderSlots evaluated)) r.repl focus
  else
    return ⟨tagTokens (← Build.ofExcept (renderSlots tree)), none, none⟩

/-- The view of a tree of statements. -/
def highlight (tree : List Stmt) (statement : Slot Stmt) (active focus : Operand) :
    Build NodeError View :=
  highlightSlots (tree.map .filled) statement active focus

/-- The view of a tree in a state: its current statement as evaluated so far,
with the part that the next step reduces. -/
def State.view (s : State) (tree : List Stmt) : Except NodeError View := do
  let active : Operand := s.active.map .stmt
  let focus ← active.redex
  let (view, _) ← highlight tree s.current active focus s.supply
  return view

end Stepwise
