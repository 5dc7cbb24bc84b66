import Stepwise.View.Fragment

/-!
# Lowering - Listings

A lowered program printed with one statement per line, labels flush left.  Only
statements that lowering produces have a line.
-/

namespace Stepwise

/-- Why a line of a listing cannot be printed. -/
inductive ListingError where
  /-- A structured statement, or nothing, stands where a flat one is expected. -/
  | unhandled (variant : Option Variant)
  /-- The statement cannot be printed. -/
  | unprintable (error : NodeError)
  deriving DecidableEq, Repr, Inhabited

/-- The text of a node in a line of a listing. -/
def Node.listed (n : Node) : Except ListingError String :=
  match n.printed with
  | .ok frags => .ok (Fragment.join frags)
  | .error e => .error (.unprintable e)

/-- The line of a flat statement. -/
def Stmt.listing : Stmt → Except ListingError String
  | .label l => .ok (l.name ++ ":\n")
  | .jump _ l => .ok ("  goto " ++ l.name ++ "\n")
  | .condJump _ c t f _ => do
    let cond ← Node.listed (.expr c)
    return "  if (" ++ cond ++ ") goto " ++ t.name ++ " else goto " ++ f.name ++ "\n"
  | .undeclaration _ x => .ok ("  undeclare " ++ x.name ++ "\n")
  | .expression id v => do return "  " ++ (← Node.listed (.stmt (.expression id v))) ++ "\n"
  | .declaration id t x v => do
    return "  " ++ (← Node.listed (.stmt (.declaration id t x v))) ++ "\n"
  | s => .error (.unhandled (some s.variant))

/-- The line of a place for a flat statement. -/
def Slot.listing : Slot Stmt → Except ListingError String
  | .filled s => s.listing
  | .empty => .error (.unhandled none)
  | .vacant v =>
    match v with
    | .label | .jump | .condJump | .undeclaration | .expression | .declaration =>
      .error (.unprintable .vacancy)
    | v => .error (.unhandled (some v))

/-- The listing of a flat program. -/
def listing (program : List (Slot Stmt)) : Except ListingError String := do
  return String.join (← program.mapM Slot.listing)

end Stepwise
