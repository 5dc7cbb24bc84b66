import Stepwise.Syntax.Build
import Stepwise.Syntax.Outline

/-!
# Machine - Environments

The variables in scope, in the order in which they were declared.  Assigning to
a variable keeps its place; one that left scope and comes back goes to the end.

The constants an environment holds are nodes of its own: binding stores a copy
and reading gives a copy, so no node of a program is ever held by an
environment.

Main definitions:

- `Env.find?`, `Env.insert` and `Env.erase`, the map operations.
- `Env.bind`, `Env.read` and `Env.unbind?`, which copy constants.
-/

namespace Stepwise

/-- A variable and its value. -/
structure Binding where
  name : String
  value : Constant
  deriving DecidableEq, Repr, Inhabited

/-- The variables in scope, the oldest first. -/
structure Env where
  bindings : List Binding
  deriving DecidableEq, Repr, Inhabited

/-- A node of its own with the same value. -/
def Constant.copy {ε : Type} (c : Constant) : Build ε Constant :=
  Build.constant c.value

namespace Env

/-- The environment without variables. -/
def empty : Env := ⟨[]⟩

/-- The constant a name is bound to. -/
def find? (env : Env) (name : String) : Option Constant :=
  (env.bindings.find? (·.name == name)).map (·.value)

/-- Whether a name is in scope. -/
def contains (env : Env) (name : String) : Bool :=
  env.bindings.any (·.name == name)

/-- The names in scope, the oldest first. -/
def names (env : Env) : List String :=
  env.bindings.map (·.name)

/-- The number of variables in scope. -/
def size (env : Env) : Nat :=
  env.bindings.length

/-- Bind a name in a list of bindings, in its place or at the end. -/
def insertBinding (name : String) (value : Constant) : List Binding → List Binding
  | [] => [⟨name, value⟩]
  | b :: bs => if b.name = name then ⟨name, value⟩ :: bs else b :: insertBinding name value bs

/-- Bind a name to a constant, in its place or at the end. -/
def insert (env : Env) (name : String) (value : Constant) : Env :=
  ⟨insertBinding name value env.bindings⟩

/-- Remove the binding of a name. -/
def erase (env : Env) (name : String) : Env :=
  ⟨env.bindings.eraseP (·.name == name)⟩

variable {ε : Type}

/-- Bind a name to a copy of a constant. -/
def bind (env : Env) (name : String) (value : Constant) : Build ε Env := do
  return env.insert name (← value.copy)

/-- A copy of the constant a name is bound to. -/
def read (env : Env) (name : String) : Build ε (Option Constant) :=
  match env.find? name with
  | none => pure none
  | some c => do return some (← c.copy)

/-- The environment without a name that is in scope. -/
def unbind? (env : Env) (name : String) : Option Env :=
  if env.contains name then some (env.erase name) else none

/-- An environment in braces, for display. -/
def text (env : Env) : String :=
  "\x7b" ++ ", ".intercalate (env.bindings.map fun b => b.name ++ " = " ++ b.value.value.text) ++
    "\x7d"

@[simp] theorem names_empty : empty.names = [] := rfl

end Env

end Stepwise
