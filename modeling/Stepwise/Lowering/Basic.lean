import Stepwise.Syntax.Build

/-!
# Lowering - Structured statements to labels and jumps

A program is lowered to a flat list of statements.  Expression statements and
declarations are kept as the same nodes.  The end of a scope is made explicit:
a block drops the names it declared, a loop the name its header declared.

A conditional statement becomes

    if c goto T else goto F
    T: body; goto E
    F: goto E
    E:

and a loop becomes

    init
    B: if c goto S else goto E
    S: body; update; goto B
    E: undeclare the name of init

where a loop without a condition jumps to its body.

Main definitions:

- `Stmt.lower`, the lowering of a statement, and `lower`, of a program.
- `lowerCondition` and `undeclarations`, which build the conditional jump of a
  loop and the statements that end a scope.
-/

namespace Stepwise

/-- A label whose name was never given out before. -/
def newLabel (stem : String) (s : Supply) : Label × Supply :=
  (⟨s.node, stem ++ toString (s.labels + 1)⟩, ⟨s.node + 1, s.labels + 1⟩)

/-- A jump. -/
def newJump (target : Label) (s : Supply) : Stmt × Supply :=
  (.jump s.node target, s.next)

/-- The statements that end the scopes of the names a list of statements
declares. -/
def undeclarations : List Stmt → Build NodeError (List Stmt)
  | [] => pure []
  | stmt :: rest =>
    match stmt.declared? with
    | none => undeclarations rest
    | some name => do
      let u ← Build.undeclaration (.ident name)
      return u :: (← undeclarations rest)

/-- The jump at the head of a loop, for its condition. -/
def lowerCondition (cond : Stmt) (body exit : Label) : Build NodeError Stmt :=
  match cond with
  | .expression _ (some c) => Build.condJump (.expr c) (.label body) (.label exit) (.stmt cond)
  | .expression _ none => modifyGet (newJump body)
  | cond => throw (.unsupported .loweringCondition cond.kind)

mutual

/-- The flat statements of a statement. -/
def Stmt.lower (stmt : Stmt) : Build NodeError (List Stmt) :=
  match stmt with
  | .expression .. => pure [stmt]
  | .declaration .. => pure [stmt]
  | .block _ ss => do
    let body ← Stmt.lowerAll ss
    let drops ← undeclarations ss
    return body ++ drops
  | .ifThen _ c b => do
    let onTrue ← modifyGet (newLabel "true")
    let onFalse ← modifyGet (newLabel "false")
    let exit ← modifyGet (newLabel "end")
    let test ← Build.condJump (.expr c) (.label onTrue) (.label onFalse) (.stmt stmt)
    let body ← b.lower
    let leave ← modifyGet (newJump exit)
    let skip ← modifyGet (newJump exit)
    return test :: .label onTrue :: (body ++ [leave, .label onFalse, skip, .label exit])
  | .forLoop _ i c u b => do
    let start ← modifyGet (newLabel "begin")
    let inner ← modifyGet (newLabel "body")
    let exit ← modifyGet (newLabel "end")
    let init ← i.lower
    let test ← lowerCondition c inner exit
    let body ← b.lower
    let update ← u.lower
    let again ← modifyGet (newJump start)
    let drops ← undeclarations [i]
    return init ++ .label start :: test :: .label inner ::
      (body ++ (update ++ again :: .label exit :: drops))
  | stmt => throw (.unsupported .lowering stmt.kind)

/-- The flat statements of a list of statements. -/
def Stmt.lowerAll (stmts : List Stmt) : Build NodeError (List Stmt) :=
  match stmts with
  | [] => pure []
  | stmt :: rest => do
    let code ← stmt.lower
    let more ← Stmt.lowerAll rest
    return code ++ more

end

/-- The flat statements of a place for a statement. -/
def Slot.lower (slot : Slot Stmt) : Build NodeError (List Stmt) :=
  match slot with
  | .filled stmt => stmt.lower
  | .empty => throw (.unsupported .lowering .absent)
  | .vacant v => throw (.unsupported .lowering (.of v))

/-- The flat statements of a program. -/
def lower (program : List (Slot Stmt)) : Build NodeError (List Stmt) :=
  match program with
  | [] => pure []
  | slot :: rest => do
    let code ← slot.lower
    let more ← lower rest
    return code ++ more

end Stepwise
