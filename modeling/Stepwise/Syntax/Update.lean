import Stepwise.Syntax.Build

/-!
# Syntax - Replacing one part of a node

Each function gives a new node of the same variant with one part replaced.  The
new node goes through the checked builders, so a part of the wrong class is
refused; a variant without the part does not support the replacement.  An empty
place reserved for a variant has no other parts to keep, so the replacement
fails on it unless the part replaced is the only one.

Main definitions:

- `Expr.withLeft`, `Expr.withValue`, `Stmt.withCondition`, ...: the replacements
  by which an evaluated part goes back into its place.
- `Operand.withLeft`, `Operand.withBody`, ...: every replacement, on any operand.
-/

namespace Stepwise

namespace Expr

/-- Replace the left operand of a binary expression. -/
def withLeft (e : Expr) (left : Operand) : Build NodeError Expr :=
  match e with
  | .binary _ op _ r => Build.binary op left (.expr r)
  | e => throw (.unsupported (.replacing .left) e.kind)

/-- Replace the right operand of a binary expression. -/
def withRight (e : Expr) (right : Operand) : Build NodeError Expr :=
  match e with
  | .binary _ op l _ => Build.binary op (.expr l) right
  | e => throw (.unsupported (.replacing .right) e.kind)

/-- Replace an assigned or added value. -/
def withValue (e : Expr) (value : Operand) : Build NodeError Expr :=
  match e with
  | .assign _ x _ => Build.assign (.ident x) value
  | .addAssign _ x _ => Build.addAssign (.ident x) value
  | e => throw (.unsupported (.replacing .value) e.kind)

/-- Replace the argument of a call at a position. -/
def withArgument (e : Expr) (position : Int) (arg : Operand) : Build NodeError Expr :=
  match e with
  | .invoke _ f args =>
    if position < 0 ∨ args.length ≤ position.toNat then
      throw (.argumentPosition position args.length)
    else
      Build.invoke (.ident f) ((args.map Operand.expr).set position.toNat arg)
  | e => throw (.unsupported (.replacing .argument) e.kind)

end Expr

namespace Stmt

/-- Replace the value of a statement or an initializer. -/
def withValue (s : Stmt) (value : Operand) : Build NodeError Stmt :=
  match s with
  | .expression .. => Build.expression value
  | .declaration _ t x _ => Build.declaration t (.ident x) value
  | s => throw (.unsupported (.replacing .value) s.kind)

/-- Replace the condition of a conditional statement, a conditional jump or a
loop; the condition of a loop is a statement. -/
def withCondition (s : Stmt) (cond : Operand) : Build NodeError Stmt :=
  match s with
  | .ifThen _ _ b => Build.ifThen cond (.stmt b)
  | .condJump _ _ t f o => Build.condJump cond (.label t) (.label f) (.stmt o)
  | .forLoop _ i _ u b => Build.forLoop (.stmt i) cond (.stmt u) (.stmt b)
  | s => throw (.unsupported (.replacing .condition) s.kind)

end Stmt

namespace Operand

/-- The error for a node without the part to replace. -/
def lacks (part : Part) (n : Operand) : NodeError :=
  match n.kind? with
  | some kind => .unsupported (.replacing part) kind
  | none => .vacancy

private def built (e : Build NodeError Expr) : Build NodeError Node := do
  return .expr (← e)

private def builtStmt (s : Build NodeError Stmt) : Build NodeError Node := do
  return .stmt (← s)

/-- Replace the left operand of a binary expression. -/
def withLeft (n left : Operand) : Build NodeError Node :=
  match n with
  | .filled (.expr e) => built (e.withLeft left)
  | .vacant .binary => throw .vacancy
  | n => throw (n.lacks .left)

/-- Replace the right operand of a binary expression. -/
def withRight (n right : Operand) : Build NodeError Node :=
  match n with
  | .filled (.expr e) => built (e.withRight right)
  | .vacant .binary => throw .vacancy
  | n => throw (n.lacks .right)

/-- Replace an assigned value, the value of a statement or an initializer. -/
def withValue (n value : Operand) : Build NodeError Node :=
  match n with
  | .filled (.expr e) => built (e.withValue value)
  | .filled (.stmt s) => builtStmt (s.withValue value)
  | .vacant .expression => builtStmt (Build.expression value)
  | .vacant .assign | .vacant .addAssign | .vacant .declaration => throw .vacancy
  | n => throw (n.lacks .value)

/-- Replace the condition of a conditional statement, a conditional jump or a
loop. -/
def withCondition (n cond : Operand) : Build NodeError Node :=
  match n with
  | .filled (.stmt s) => builtStmt (s.withCondition cond)
  | .vacant .ifThen | .vacant .condJump | .vacant .forLoop => throw .vacancy
  | n => throw (n.lacks .condition)

/-- Replace the argument of a call at a position. -/
def withArgument (n arg : Operand) (position : Int) : Build NodeError Node :=
  match n with
  | .filled (.expr e) => built (e.withArgument position arg)
  | .vacant .invoke => throw .vacancy
  | n => throw (n.lacks .argument)

/-- Replace all arguments of a call. -/
def withArguments (n : Operand) (args : List Operand) : Build NodeError Node :=
  match n with
  | .filled (.expr (.invoke _ f _)) => built (Build.invoke (ident f) args)
  | .vacant .invoke => throw .vacancy
  | n => throw (n.lacks .arguments)

/-- Replace the name a node assigns, increments, calls, declares or undeclares. -/
def withIdentifier (n name : Operand) : Build NodeError Node :=
  match n with
  | .filled (.expr (.assign _ _ v)) => built (Build.assign name (expr v))
  | .filled (.expr (.addAssign _ _ v)) => built (Build.addAssign name (expr v))
  | .filled (.expr (.increment ..)) => built (Build.increment name)
  | .filled (.expr (.invoke _ _ args)) => built (Build.invoke name (args.map expr))
  | .filled (.stmt (.declaration _ t _ v)) => builtStmt (Build.declaration t name (optional v))
  | .filled (.stmt (.undeclaration ..)) => builtStmt (Build.undeclaration name)
  | .vacant .increment => built (Build.increment name)
  | .vacant .undeclaration => builtStmt (Build.undeclaration name)
  | .vacant .assign | .vacant .addAssign | .vacant .invoke | .vacant .declaration =>
    throw .vacancy
  | n => throw (n.lacks .identifier)

/-- Replace the first part of a loop header. -/
def withInitializer (n init : Operand) : Build NodeError Node :=
  match n with
  | .filled (.stmt (.forLoop _ _ c u b)) =>
    builtStmt (Build.forLoop init (stmt c) (stmt u) (stmt b))
  | .vacant .forLoop => throw .vacancy
  | n => throw (n.lacks .initializer)

/-- Replace the last part of a loop header. -/
def withUpdate (n update : Operand) : Build NodeError Node :=
  match n with
  | .filled (.stmt (.forLoop _ i c _ b)) =>
    builtStmt (Build.forLoop (stmt i) (stmt c) update (stmt b))
  | .vacant .forLoop => throw .vacancy
  | n => throw (n.lacks .update)

/-- Replace the body of a loop or of a conditional statement. -/
def withBody (n body : Operand) : Build NodeError Node :=
  match n with
  | .filled (.stmt (.forLoop _ i c u _)) =>
    builtStmt (Build.forLoop (stmt i) (stmt c) (stmt u) body)
  | .filled (.stmt (.ifThen _ c _)) => builtStmt (Build.ifThen (expr c) body)
  | .vacant .forLoop | .vacant .ifThen => throw .vacancy
  | n => throw (n.lacks .body)

/-- Replace the statements of a block. -/
def withStatements (n : Operand) (stmts : List Operand) : Build NodeError Node :=
  match n with
  | .filled (.stmt (.block ..)) => builtStmt (Build.block stmts)
  | .vacant .block => builtStmt (Build.block stmts)
  | n => throw (n.lacks .statements)

end Operand

end Stepwise
