import Stepwise.Syntax.Build
import Stepwise.Syntax.Walk

/-!
# Syntax - Replacing one occurrence

Substitution replaces the first occurrence of a node, in pre-order, by an
operand.  Every node above that occurrence is built anew, with checks; every
subtree beside the path is kept.  Where the node does not occur the tree is kept
as it is.

Main definitions:

- `Expr.replace?` and `Stmt.replace?`: what stands for a tree after the
  replacement, or nothing when the node does not occur in it.
- `Operand.substitute`, the replacement of one node by an operand.
-/

namespace Stepwise

section

variable (target : NodeId) (repl : Operand)

/-- A built expression as the outcome of a replacement. -/
private def replacedExpr (e : Build NodeError Expr) : Build NodeError (Option Operand) := do
  return some (.expr (← e))

/-- A built statement as the outcome of a replacement. -/
private def replacedStmt (s : Build NodeError Stmt) : Build NodeError (Option Operand) := do
  return some (.stmt (← s))

mutual

/-- Replace the first occurrence of the target in an expression. -/
def Expr.replace? (e : Expr) : Build NodeError (Option Operand) :=
  if e.id = target then pure (some repl) else
  match e with
  | .identifier _ => pure none
  | .constant _ => pure none
  | .binary _ op l r => do
    match ← l.replace? with
    | some l' => replacedExpr (Build.binary op l' (.expr r))
    | none =>
      match ← r.replace? with
      | some r' => replacedExpr (Build.binary op (.expr l) r')
      | none => pure none
  | .assign _ x v => do
    if x.id = target then replacedExpr (Build.assign repl (.expr v)) else
    match ← v.replace? with
    | some v' => replacedExpr (Build.assign (.ident x) v')
    | none => pure none
  | .addAssign _ x v => do
    if x.id = target then replacedExpr (Build.addAssign repl (.expr v)) else
    match ← v.replace? with
    | some v' => replacedExpr (Build.addAssign (.ident x) v')
    | none => pure none
  | .increment _ x =>
    if x.id = target then replacedExpr (Build.increment repl) else pure none
  | .invoke _ f args => do
    if f.id = target then replacedExpr (Build.invoke repl (args.map .expr)) else
    match ← Expr.replaceList? args with
    | some args' => replacedExpr (Build.invoke (.ident f) args')
    | none => pure none
  | .hole _ => pure none

/-- Replace the first occurrence of the target in a list of expressions. -/
def Expr.replaceList? (es : List Expr) : Build NodeError (Option (List Operand)) :=
  match es with
  | [] => pure none
  | e :: es => do
    match ← e.replace? with
    | some e' => pure (some (e' :: es.map .expr))
    | none =>
      match ← Expr.replaceList? es with
      | some es' => pure (some (.expr e :: es'))
      | none => pure none

end

/-- Replace the first occurrence of the target in an optional expression. -/
def Expr.replaceOption? : Option Expr → Build NodeError (Option Operand)
  | none => pure none
  | some e => e.replace? target repl

mutual

/-- Replace the first occurrence of the target in a statement. -/
def Stmt.replace? (s : Stmt) : Build NodeError (Option Operand) :=
  if s.id = target then pure (some repl) else
  match s with
  | .expression _ v => do
    match ← Expr.replaceOption? target repl v with
    | some v' => replacedStmt (Build.expression v')
    | none => pure none
  | .declaration _ t x v => do
    if x.id = target then replacedStmt (Build.declaration t repl (.optional v)) else
    match ← Expr.replaceOption? target repl v with
    | some v' => replacedStmt (Build.declaration t (.ident x) v')
    | none => pure none
  | .block _ ss => do
    match ← Stmt.replaceList? ss with
    | some ss' => replacedStmt (Build.block ss')
    | none => pure none
  | .forLoop _ i c u b => do
    match ← i.replace? with
    | some i' => replacedStmt (Build.forLoop i' (.stmt c) (.stmt u) (.stmt b))
    | none =>
      match ← c.replace? with
      | some c' => replacedStmt (Build.forLoop (.stmt i) c' (.stmt u) (.stmt b))
      | none =>
        match ← u.replace? with
        | some u' => replacedStmt (Build.forLoop (.stmt i) (.stmt c) u' (.stmt b))
        | none =>
          match ← b.replace? with
          | some b' => replacedStmt (Build.forLoop (.stmt i) (.stmt c) (.stmt u) b')
          | none => pure none
  | .ifThen _ c b => do
    match ← c.replace? target repl with
    | some c' => replacedStmt (Build.ifThen c' (.stmt b))
    | none =>
      match ← b.replace? with
      | some b' => replacedStmt (Build.ifThen (.expr c) b')
      | none => pure none
  | .label _ => pure none
  | .jump .. => pure none
  | .condJump _ c t f o => do
    match ← c.replace? target repl with
    | some c' => replacedStmt (Build.condJump c' (.label t) (.label f) (.stmt o))
    | none => pure none
  | .undeclaration _ x =>
    if x.id = target then replacedStmt (Build.undeclaration repl) else pure none

/-- Replace the first occurrence of the target in a list of statements. -/
def Stmt.replaceList? (ss : List Stmt) : Build NodeError (Option (List Operand)) :=
  match ss with
  | [] => pure none
  | s :: ss => do
    match ← s.replace? with
    | some s' => pure (some (s' :: ss.map .stmt))
    | none =>
      match ← Stmt.replaceList? ss with
      | some ss' => pure (some (.stmt s :: ss'))
      | none => pure none

end

end

/-- Replace the first occurrence of the target in a tree. -/
def Node.replace? (target : NodeId) (repl : Operand) : Node → Build NodeError (Option Operand)
  | .expr e => e.replace? target repl
  | .stmt s => s.replace? target repl

/-- The tree with the first occurrence of `target` replaced by `repl`.  The tree
is kept when `target` does not occur in it or is replaced by itself. -/
def Operand.substitute (root target repl : Operand) : Build NodeError Operand :=
  match root.get?, target.get? with
  | some n, some t =>
    if repl.same target then pure root else do
      return (← n.replace? t.id repl).getD root
  | _, _ => pure root

end Stepwise
