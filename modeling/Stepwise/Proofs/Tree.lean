import Stepwise.Syntax.Build
import Mathlib.Data.List.Basic

/-!
# Proofs - Induction on trees

Calls hold a list of arguments and blocks a list of statements, so the induction
principles that come with the two classes of nodes speak of lists as well.  The
principles here speak of the members of those lists instead.

Main results:

- `Expr.induct` and `Stmt.induct`: induction on expressions and on statements.
- `Expr.allChecked_iff` and `Stmt.allChecked_iff`: a list is checked when all its
  members are.
-/

namespace Stepwise

/-! ## Induction principles -/

/-- Induction on an expression; the arguments of a call come before the call. -/
@[elab_as_elim]
theorem Expr.induct {P : Expr → Prop}
    (identifier : ∀ i, P (.identifier i)) (constant : ∀ c, P (.constant c))
    (binary : ∀ id op l r, P l → P r → P (.binary id op l r))
    (assign : ∀ id x v, P v → P (.assign id x v))
    (addAssign : ∀ id x v, P v → P (.addAssign id x v))
    (increment : ∀ id x, P (.increment id x))
    (invoke : ∀ id f args, (∀ e ∈ args, P e) → P (.invoke id f args))
    (hole : ∀ v, P (.hole v)) (e : Expr) : P e :=
  @Expr.rec P (fun es => ∀ e ∈ es, P e) identifier constant binary assign addAssign increment
    invoke hole (by simp) (fun _ _ he hes => by simpa using ⟨he, hes⟩) e

/-- Induction on a statement; the statements of a block come before the block. -/
@[elab_as_elim]
theorem Stmt.induct {P : Stmt → Prop}
    (expression : ∀ id v, P (.expression id v))
    (declaration : ∀ id t x v, P (.declaration id t x v))
    (block : ∀ id ss, (∀ s ∈ ss, P s) → P (.block id ss))
    (forLoop : ∀ id i c u b, P i → P c → P u → P b → P (.forLoop id i c u b))
    (ifThen : ∀ id c b, P b → P (.ifThen id c b))
    (label : ∀ l, P (.label l)) (jump : ∀ id l, P (.jump id l))
    (condJump : ∀ id c t f o, P o → P (.condJump id c t f o))
    (undeclaration : ∀ id x, P (.undeclaration id x)) (s : Stmt) : P s :=
  @Stmt.rec P (fun ss => ∀ s ∈ ss, P s) expression declaration block forLoop ifThen label jump
    condJump undeclaration (by simp) (fun _ _ hs hss => by simpa using ⟨hs, hss⟩) s

/-! ## Checked trees -/

attribute [simp] Expr.Checked Expr.AllChecked Expr.OptionChecked Stmt.Checked Stmt.AllChecked

/-- A checked expression is no hole. -/
theorem Expr.Checked.ne_hole {e : Expr} (he : e.Checked) (v : Option Variant) :
    e ≠ .hole v := by
  rintro rfl
  exact he

/-- A list of expressions is checked when all its members are. -/
theorem Expr.allChecked_iff {es : List Expr} :
    Expr.AllChecked es ↔ ∀ e ∈ es, e.Checked := by
  induction es with
  | nil => simp
  | cons e es ih => simp [ih]

/-- A list of statements is checked when all its members are. -/
theorem Stmt.allChecked_iff {ss : List Stmt} :
    Stmt.AllChecked ss ↔ ∀ s ∈ ss, s.Checked := by
  induction ss with
  | nil => simp
  | cons s ss ih => simp [ih]

/-- A list is checked when both of its parts are. -/
theorem Stmt.allChecked_append {ss more : List Stmt} :
    Stmt.AllChecked (ss ++ more) ↔ Stmt.AllChecked ss ∧ Stmt.AllChecked more := by
  simp only [Stmt.allChecked_iff, List.mem_append, or_imp, forall_and]

@[simp] theorem Expr.constant?_constant (c : Constant) : (Expr.constant c).constant? = some c := rfl

/-- The constant of an expression is the expression itself. -/
theorem Expr.constant?_eq_some_iff {e : Expr} {c : Constant} :
    e.constant? = some c ↔ e = .constant c := by
  cases e <;> simp [Expr.constant?]

end Stepwise
