import Stepwise.Syntax.Slot

/-!
# Syntax - Walking a tree

The children of a node in the order in which they are written, and all nodes of
a tree in pre-order.  The targets of jumps and the origin of a conditional jump
are references and no children; a hole is no node.

Main definitions:

- `Node.children` and `Node.nodes`, the latter starting with the node itself.
- `Operand.contains`, which looks for a node by identity.
-/

namespace Stepwise

/-- A name as a node. -/
def Identifier.node (i : Identifier) : Node := .expr (.identifier i)

/-- An expression as a node, unless it is a hole. -/
def Expr.node? : Expr → Option Node
  | .hole _ => none
  | e => some (.expr e)

mutual

/-- The nodes of an expression in pre-order. -/
def Expr.nodes : Expr → List Node
  | .identifier i => [i.node]
  | .constant c => [.expr (.constant c)]
  | .binary id op l r => .expr (.binary id op l r) :: (l.nodes ++ r.nodes)
  | .assign id x v => .expr (.assign id x v) :: x.node :: v.nodes
  | .addAssign id x v => .expr (.addAssign id x v) :: x.node :: v.nodes
  | .increment id x => [.expr (.increment id x), x.node]
  | .invoke id f args => .expr (.invoke id f args) :: f.node :: Expr.listNodes args
  | .hole _ => []

/-- The nodes of a list of expressions in pre-order. -/
def Expr.listNodes : List Expr → List Node
  | [] => []
  | e :: es => e.nodes ++ Expr.listNodes es

end

/-- The nodes of an optional expression in pre-order. -/
def Expr.optionNodes : Option Expr → List Node
  | none => []
  | some e => e.nodes

mutual

/-- The nodes of a statement in pre-order. -/
def Stmt.nodes : Stmt → List Node
  | .expression id v => .stmt (.expression id v) :: Expr.optionNodes v
  | .declaration id t x v => .stmt (.declaration id t x v) :: x.node :: Expr.optionNodes v
  | .block id ss => .stmt (.block id ss) :: Stmt.listNodes ss
  | .forLoop id i c u b =>
    .stmt (.forLoop id i c u b) :: (i.nodes ++ (c.nodes ++ (u.nodes ++ b.nodes)))
  | .ifThen id c b => .stmt (.ifThen id c b) :: (c.nodes ++ b.nodes)
  | .label l => [.stmt (.label l)]
  | .jump id l => [.stmt (.jump id l)]
  | .condJump id c t f o => .stmt (.condJump id c t f o) :: c.nodes
  | .undeclaration id x => [.stmt (.undeclaration id x), x.node]

/-- The nodes of a list of statements in pre-order. -/
def Stmt.listNodes : List Stmt → List Node
  | [] => []
  | s :: ss => s.nodes ++ Stmt.listNodes ss

end

namespace Node

/-- The nodes of a tree in pre-order, the root first. -/
def nodes : Node → List Node
  | expr e => e.nodes
  | stmt s => s.nodes

/-- The direct children of a node, in the order in which they are written. -/
def children : Node → List Node
  | expr (.identifier _) => []
  | expr (.constant _) => []
  | expr (.binary _ _ l r) => l.node?.toList ++ r.node?.toList
  | expr (.assign _ x v) => [x.node, expr v]
  | expr (.addAssign _ x v) => [x.node, expr v]
  | expr (.increment _ x) => [x.node]
  | expr (.invoke _ f args) => f.node :: args.map expr
  | expr (.hole _) => []
  | stmt (.expression _ v) => (v.map expr).toList
  | stmt (.declaration _ _ x v) => x.node :: (v.map expr).toList
  | stmt (.block _ ss) => ss.map stmt
  | stmt (.forLoop _ i c u b) => [stmt i, stmt c, stmt u, stmt b]
  | stmt (.ifThen _ c b) => [expr c, stmt b]
  | stmt (.label _) => []
  | stmt (.jump ..) => []
  | stmt (.condJump _ c _ _ _) => [expr c]
  | stmt (.undeclaration _ x) => [x.node]

/-- Whether a node with an identity occurs in a tree. -/
def containsId (n : Node) (target : NodeId) : Bool :=
  n.nodes.any (·.id == target)

end Node

namespace Operand

/-- The direct children of an operand; an empty place has none. -/
def children (n : Operand) : List Node :=
  match n.get? with
  | some n => n.children
  | none => []

/-- The nodes of an operand in pre-order; an empty place has none. -/
def nodes (n : Operand) : List Node :=
  match n.get? with
  | some n => n.nodes
  | none => []

/-- Whether a node occurs in a tree. -/
def contains (n target : Operand) : Bool :=
  match target.get? with
  | some t => n.nodes.any (·.same t)
  | none => false

end Operand

end Stepwise
