import Stepwise.Proofs.Places

/-!
# Proofs - Substitution

The first occurrence of a node in pre-order is replaced, the nodes above it are built anew from
the inside out, and everything beside the path to it is kept, later occurrences of the same node
among it.

Main results:

- `Expr.replace?_child` and `Stmt.replace?_child`: one level of a replacement.
- `Node.Replaced`: a tree before and after the replacement of one occurrence.
- `Node.replace?_first`: what a replacement does where the node occurs.
- `substitute_first`: the outcomes of a substitution.
-/

namespace Stepwise

/-! ## One level of a replacement -/

namespace Build

@[simp] theorem asExpr_filled (role : Role) (e : Expr) :
    asExpr role (.filled (.expr e)) = .ok e := rfl

@[simp] theorem asStmt_stmt (role : Role) (st : Stmt) : asStmt role (.stmt st) = .ok st := rfl

/-- An optional operand is read back. -/
theorem asOptional_optional (role : Role) {v : Option Expr} (hv : Expr.OptionChecked v) :
    asOptional role (.optional v) = .ok v := by
  cases v with
  | none => rfl
  | some e => simp [Operand.optional, Operand.expr_of_checked hv, asOptional, Except.map]

/-- Of a list of operands that are expressions but for one, that one decides. -/
theorem mapM_asExpr_set (role : Role) {es : List Expr} (hes : Expr.AllChecked es) {k : Nat}
    (hk : k < es.length) (o : Operand) :
    ((es.map Operand.expr).set k o).mapM (asExpr role) = (asExpr role o).map (es.set k ·) := by
  rw [Operand.map_expr_of_checked hes]
  clear hes
  induction es generalizing k with
  | nil => cases hk
  | cons e es ih =>
    cases k with
    | zero =>
      have hrest := mapM_asExpr role es
      cases h : asExpr role o <;> simp [h, hrest, bind, Except.bind, pure, Except.pure, Except.map]
    | succ k =>
      have hrest := ih (Nat.lt_of_succ_lt_succ hk)
      cases h : asExpr role o <;> simp [hrest, h, bind, Except.bind, pure, Except.pure, Except.map]

/-- Statements are read with one of them replaced as the replacement is read. -/
theorem mapM_asStmt_set (role : Role) {ss : List Stmt} {k : Nat} (hk : k < ss.length)
    (o : Operand) :
    ((ss.map Operand.stmt).set k o).mapM (asStmt role) = (asStmt role o).map (ss.set k ·) := by
  induction ss generalizing k with
  | nil => cases hk
  | cons st ss ih =>
    cases k with
    | zero =>
      have hrest : (ss.map Operand.stmt).mapM (asStmt role) = .ok ss := by
        rw [List.mapM_map, mapM_asStmt]
      cases h : asStmt role o <;> simp [h, hrest, bind, Except.bind, pure, Except.pure, Except.map]
    | succ k =>
      have hrest := ih (Nat.lt_of_succ_lt_succ hk)
      cases h : asStmt role o <;> simp [hrest, h, bind, Except.bind, pure, Except.pure, Except.map]

end Build

section Outcome

variable {α : Type} {s : Supply}

/-- Where nothing was replaced in a child, the next child comes. -/
theorem Build.bind_none {β : Type} {x : Build NodeError (Option β)}
    {f : Option β → Build NodeError α} (hx : x s = .ok (none, s)) : (x >>= f) s = f none s := by
  simp [hx]

/-- Where something was replaced in a child, or refused, no other child comes. -/
theorem Build.bind_some {β : Type} {x : Build NodeError (Option β)}
    {f : Option β → Build NodeError α} {out : Except NodeError (β × Supply)}
    {g : β × Supply → Except NodeError (α × Supply)}
    (hx : x s = out.map fun p => (some p.1, p.2)) (hf : ∀ b s', f (some b) s' = g (b, s')) :
    (x >>= f) s = out.bind g := by
  cases out <;> simp [hx, hf, Except.map, Except.bind]

/-- An expression that is built anew, or refused, after a replacement. -/
theorem replacedExpr_eq {b : Build NodeError Expr} {y : Except NodeError α} {g : α → Expr}
    (hb : b s = y.map fun a => (g a, s.next))
    (hg : ∀ a, Operand.expr (g a) = .filled (.expr (g a))) :
    (do return some (Operand.expr (← b)) : Build NodeError (Option Operand)) s =
      (y.map fun a => Node.expr (g a)).map fun n => (some (.filled n), s.next) := by
  cases y <;> simp [hb, hg, Except.map]

/-- A statement that is built anew, or refused, after a replacement. -/
theorem replacedStmt_eq {b : Build NodeError Stmt} {y : Except NodeError α} {g : α → Stmt}
    (hb : b s = y.map fun a => (g a, s.next)) :
    (do return some (Operand.stmt (← b)) : Build NodeError (Option Operand)) s =
      (y.map fun a => Node.stmt (g a)).map fun n => (some (.filled n), s.next) := by
  cases y <;> simp [hb, Operand.stmt, Except.map]

end Outcome

section Child

variable {m : Node} {i : Nat} {target : NodeId} {repl : Operand} {s : Supply}
  {out : Except NodeError (Operand × Supply)}

/-- A name is replaced when it is the target. -/
theorem Identifier.replace?_node (x : Identifier) :
    x.node.replace? target repl s =
      if x.id = target then .ok (some repl, s) else .ok (none, s) := by
  by_cases h : x.id = target <;> simp [Identifier.node, Node.replace?, Expr.replace?, Expr.id, h]

/-- A name that is replaced is the target. -/
theorem Identifier.id_of_replaced {x : Identifier}
    (h : x.node.replace? target repl s = out.map fun p => (some p.1, p.2)) :
    x.id = target ∧ out = .ok (repl, s) := by
  rw [x.replace?_node] at h
  by_cases hx : x.id = target
  · rw [if_pos hx] at h
    cases out with
    | error e => cases h
    | ok p =>
      rcases p with ⟨o, s'⟩
      cases h
      exact ⟨hx, rfl⟩
  · rw [if_neg hx] at h
    cases out <;> cases h

/-- A name that is kept is not the target. -/
theorem Identifier.id_ne_of_kept {x : Identifier}
    (h : x.node.replace? target repl s = .ok (none, s)) : x.id ≠ target := by
  rw [x.replace?_node] at h
  intro hx
  rw [if_pos hx] at h
  cases h

/-- What becomes of a list of expressions is what becomes of the first one that holds the
target. -/
theorem Expr.replaceList?_child {es : List Expr} {e : Expr} (he : es[i]? = some e)
    (hbefore : ∀ j < i, ∀ k, es[j]? = some k → k.replace? target repl s = .ok (none, s))
    (hout : e.replace? target repl s = out.map fun p => (some p.1, p.2)) :
    Expr.replaceList? target repl es s =
      out.map fun p => (some ((es.map Operand.expr).set i p.1), p.2) := by
  induction es generalizing i with
  | nil => cases he
  | cons a es ih =>
    rw [Expr.replaceList?]
    cases i with
    | zero =>
      cases he
      simp only [Build.bind_apply, hout]
      cases out <;> rfl
    | succ i =>
      have hrest := ih he fun j hj k hk => hbefore (j + 1) (Nat.succ_lt_succ hj) k hk
      simp only [Build.bind_apply, hbefore 0 (Nat.succ_pos i) a rfl, hrest]
      cases out <;> rfl

/-- Replacing in a list of statements replaces in the first that holds the target. -/
theorem Stmt.replaceList?_child {ss : List Stmt} {st : Stmt} (hst : ss[i]? = some st)
    (hbefore : ∀ j < i, ∀ k, ss[j]? = some k → k.replace? target repl s = .ok (none, s))
    (hout : st.replace? target repl s = out.map fun p => (some p.1, p.2)) :
    Stmt.replaceList? target repl ss s =
      out.map fun p => (some ((ss.map Operand.stmt).set i p.1), p.2) := by
  induction ss generalizing i with
  | nil => cases hst
  | cons a ss ih =>
    rw [Stmt.replaceList?]
    cases i with
    | zero =>
      cases hst
      simp only [Build.bind_apply, hout]
      cases out <;> rfl
    | succ i =>
      have hrest := ih hst fun j hj k hk => hbefore (j + 1) (Nat.succ_lt_succ hj) k hk
      simp only [Build.bind_apply, hbefore 0 (Nat.succ_pos i) a rfl, hrest]
      cases out <;> rfl

/-- Replacing in an expression replaces in its first child that holds the target. -/
theorem Expr.replace?_child {e : Expr} (he : e.Checked) (hid : e.id ≠ target)
    (hm : (Node.expr e).children[i]? = some m)
    (hbefore : ∀ j < i, ∀ k, (Node.expr e).children[j]? = some k →
      k.replace? target repl s = .ok (none, s))
    (hout : m.replace? target repl s = out.map fun p => (some p.1, p.2)) :
    e.replace? target repl s = out.bind fun p =>
      ((Node.expr e).put? i p.1 p.2.node).map fun n => (some (.filled n), p.2.next) := by
  cases e with
  | identifier | constant | hole => cases hm
  | binary id op l r =>
    obtain ⟨hop, hl, hr⟩ : op.known = true ∧ l.Checked ∧ r.Checked := he
    simp only [Node.children, node?_of_checked hl, node?_of_checked hr,
      Option.toList_some, List.cons_append, List.nil_append] at hm hbefore
    simp only [replace?, if_neg hid, Operand.expr_of_checked hl, Operand.expr_of_checked hr]
    rcases i with _ | _ | i
    · cases hm
      refine Build.bind_some hout fun o s' => replacedExpr_eq ?_ fun _ => rfl
      rw [Build.binary, hop]
      cases Build.asExpr .leftOperand o <;> rfl
    · cases hm
      refine (Build.bind_none (hbefore 0 Nat.one_pos _ rfl)).trans ?_
      refine Build.bind_some hout fun o s' => replacedExpr_eq ?_ fun _ => rfl
      rw [Build.binary, hop]
      cases Build.asExpr .rightOperand o <;> rfl
    · cases hm
  | assign id x v =>
    simp only [replace?, if_neg hid, Operand.expr_of_checked he.2]
    rcases i with _ | _ | i
    · cases hm
      obtain ⟨hx, rfl⟩ := Identifier.id_of_replaced hout
      rw [if_pos hx]
      refine replacedExpr_eq ?_ fun _ => rfl
      rw [Build.assign]
      cases Build.asIdentifier .assignTarget repl <;> rfl
    · cases hm
      rw [if_neg (Identifier.id_ne_of_kept (hbefore 0 Nat.one_pos _ rfl))]
      refine Build.bind_some hout fun o s' => replacedExpr_eq ?_ fun _ => rfl
      rw [Build.assign]
      cases Build.asExpr .assignedValue o <;> rfl
    · cases hm
  | addAssign id x v =>
    simp only [replace?, if_neg hid, Operand.expr_of_checked he.2]
    rcases i with _ | _ | i
    · cases hm
      obtain ⟨hx, rfl⟩ := Identifier.id_of_replaced hout
      rw [if_pos hx]
      refine replacedExpr_eq ?_ fun _ => rfl
      rw [Build.addAssign]
      cases Build.asIdentifier .assignTarget repl <;> rfl
    · cases hm
      rw [if_neg (Identifier.id_ne_of_kept (hbefore 0 Nat.one_pos _ rfl))]
      refine Build.bind_some hout fun o s' => replacedExpr_eq ?_ fun _ => rfl
      rw [Build.addAssign]
      cases Build.asExpr .addedValue o <;> rfl
    · cases hm
  | increment id x =>
    rcases i with _ | i
    · cases hm
      obtain ⟨hx, rfl⟩ := Identifier.id_of_replaced hout
      rw [replace?, if_neg hid, if_pos hx]
      refine replacedExpr_eq ?_ fun _ => rfl
      rw [Build.increment]
      cases Build.asIdentifier .incrementTarget repl <;> rfl
    · cases hm
  | invoke id f args =>
    rw [replace?, if_neg hid]
    cases i with
    | zero =>
      cases hm
      obtain ⟨hx, rfl⟩ := Identifier.id_of_replaced hout
      rw [if_pos hx]
      refine replacedExpr_eq ?_ fun _ => rfl
      rw [Build.invoke, Operand.map_expr_of_checked he.2, Build.mapM_asExpr]
      cases Build.asIdentifier .callee repl <;> rfl
    | succ k =>
      simp only [Node.children, List.getElem?_cons_succ, List.getElem?_map,
        Option.map_eq_some_iff] at hm
      obtain ⟨e, hk, rfl⟩ := hm
      have hargs := replaceList?_child hk (fun j hj k hk =>
        hbefore (j + 1) (Nat.succ_lt_succ hj) (.expr k) (by simp [Node.children, hk])) hout
      rw [if_neg (Identifier.id_ne_of_kept (hbefore 0 (Nat.succ_pos k) _ rfl))]
      simp only [Build.bind_apply, hargs]
      cases out with
      | error e => rfl
      | ok p =>
        refine replacedExpr_eq ?_ fun _ => rfl
        rw [Build.invoke, Build.mapM_asExpr_set .argument he.2 (List.getElem?_eq_some_iff.1 hk).1]
        cases Build.asExpr .argument p.1 <;> rfl

theorem Stmt.replace?_child {st : Stmt} (hst : st.Checked) (hid : st.id ≠ target)
    (hm : (Node.stmt st).children[i]? = some m)
    (hbefore : ∀ j < i, ∀ k, (Node.stmt st).children[j]? = some k →
      k.replace? target repl s = .ok (none, s))
    (hout : m.replace? target repl s = out.map fun p => (some p.1, p.2)) :
    st.replace? target repl s = out.bind fun p =>
      ((Node.stmt st).put? i p.1 p.2.node).map fun n => (some (.filled n), p.2.next) := by
  cases st with
  | label | jump => cases hm
  | expression id v =>
    cases v with
    | none => cases hm
    | some e =>
      rcases i with _ | i
      · cases hm
        rw [replace?, if_neg hid]
        refine Build.bind_some hout fun o s' => replacedStmt_eq ?_
        rw [Build.expression]
        cases Build.asOptional .statementValue o <;> rfl
      · cases hm
  | declaration id t x v =>
    rw [replace?, if_neg hid]
    rcases i with _ | i
    · cases hm
      obtain ⟨hx, rfl⟩ := Identifier.id_of_replaced hout
      rw [if_pos hx]
      refine replacedStmt_eq ?_
      rw [Build.declaration, hst.1, Build.asOptional_optional _ hst.2.2]
      cases Build.asIdentifier .declaredName repl <;> rfl
    · cases v with
      | none => cases hm
      | some e =>
        rcases i with _ | i
        · cases hm
          rw [if_neg (Identifier.id_ne_of_kept (hbefore 0 Nat.one_pos _ rfl))]
          refine Build.bind_some hout fun o s' => replacedStmt_eq ?_
          rw [Build.declaration, hst.1]
          cases Build.asOptional .initializer o <;> rfl
        · cases hm
  | block id ss =>
    simp only [Node.children, List.getElem?_map, Option.map_eq_some_iff] at hm
    obtain ⟨st, hk, rfl⟩ := hm
    have hss := replaceList?_child hk (fun j hj k hk =>
      hbefore j hj (.stmt k) (by simp [Node.children, hk])) hout
    rw [replace?, if_neg hid]
    simp only [Build.bind_apply, hss]
    cases out with
    | error e => rfl
    | ok p =>
      refine replacedStmt_eq ?_
      rw [Build.block, Build.mapM_asStmt_set .blockStatement (List.getElem?_eq_some_iff.1 hk).1]
      cases Build.asStmt .blockStatement p.1 <;> rfl
  | forLoop id init c u b =>
    rw [replace?, if_neg hid]
    rcases i with _ | _ | _ | _ | i
    · cases hm
      refine Build.bind_some hout fun o s' => replacedStmt_eq ?_
      rw [Build.forLoop]
      cases Build.asStmt .forInit o <;> rfl
    · cases hm
      refine (Build.bind_none (hbefore 0 (by omega) _ rfl)).trans ?_
      refine Build.bind_some hout fun o s' => replacedStmt_eq ?_
      rw [Build.forLoop]
      cases Build.asStmt .forCond o <;> rfl
    · cases hm
      refine (Build.bind_none (hbefore 0 (by omega) _ rfl)).trans ?_
      refine (Build.bind_none (hbefore 1 (by omega) _ rfl)).trans ?_
      refine Build.bind_some hout fun o s' => replacedStmt_eq ?_
      rw [Build.forLoop]
      cases Build.asStmt .forUpdate o <;> rfl
    · cases hm
      refine (Build.bind_none (hbefore 0 (by omega) _ rfl)).trans ?_
      refine (Build.bind_none (hbefore 1 (by omega) _ rfl)).trans ?_
      refine (Build.bind_none (hbefore 2 (by omega) _ rfl)).trans ?_
      refine Build.bind_some hout fun o s' => replacedStmt_eq ?_
      rw [Build.forLoop]
      cases Build.asStmt .forBody o <;> rfl
    · cases hm
  | ifThen id c b =>
    simp only [replace?, if_neg hid, Operand.expr_of_checked hst.1]
    rcases i with _ | _ | i
    · cases hm
      refine Build.bind_some hout fun o s' => replacedStmt_eq ?_
      rw [Build.ifThen]
      cases Build.asExpr .ifCond o <;> rfl
    · cases hm
      refine (Build.bind_none (hbefore 0 Nat.one_pos _ rfl)).trans ?_
      refine Build.bind_some hout fun o s' => replacedStmt_eq ?_
      rw [Build.ifThen]
      cases Build.asStmt .ifBody o <;> rfl
    · cases hm
  | condJump id c t f origin =>
    rcases i with _ | i
    · cases hm
      rw [replace?, if_neg hid]
      refine Build.bind_some hout fun o s' => replacedStmt_eq ?_
      rw [Build.condJump]
      cases Build.asExpr .jumpCond o <;> rfl
    · cases hm
  | undeclaration id x =>
    rcases i with _ | i
    · cases hm
      obtain ⟨hx, rfl⟩ := Identifier.id_of_replaced hout
      rw [replace?, if_neg hid, if_pos hx]
      refine replacedStmt_eq ?_
      rw [Build.undeclaration]
      cases Build.asIdentifier .undeclaredName repl <;> rfl
    · cases hm

end Child

/-! ## The outcome of a replacement -/

/-- The node at the end of a path below an operand. -/
def Operand.at? (o : Operand) (path : List Nat) : Option Node :=
  o.get?.bind (·.at? path)

/-- An operand that is a node is that node. -/
theorem Operand.eq_filled_of_at? {o : Operand} {n : Node} (h : o.at? [] = some n) :
    o = .filled n := by
  cases o with
  | empty | vacant => cases h
  | filled m =>
    cases h
    rfl

namespace Node

/-- Whether an operand may stand at the end of a path; the root stands at no place, so anything
may stand for it. -/
def fits (n : Node) (path : List Nat) (o : Operand) : Bool :=
  (n.place? path).all (·.accepts o)

/-- A tree and what it becomes when one occurrence is replaced: the replacement stands at the
end of the path, every node above it is built anew and draws the next identity, from the inside
out, and what stands beside the path is kept. -/
structure Replaced (n : Node) (path : List Nat) (repl : Operand) (s : Supply) (o : Operand)
    (s' : Supply) : Prop where
  whole : path = [] → o = repl
  placed : o.at? path = repl.get?
  above : ∀ front rest, path = front ++ rest → rest ≠ [] → ∃ k k', n.at? front = some k ∧
    o.at? front = some k' ∧ k.Alike k' ∧ (k'.id + 1 : Nat) = s.node + rest.length
  beside : ∀ other, Beside path other → o.at? other = n.at? other
  drawn : s' = ⟨s.node + path.length, s.labels⟩

variable {n n' m : Node} {i : Nat} {path : List Nat} {repl o : Operand} {s s' : Supply}

/-- Replacing a node whole gives the replacement. -/
theorem Replaced.root (n : Node) (repl : Operand) (s : Supply) : n.Replaced [] repl s repl s := by
  constructor
  case whole => exact fun _ => rfl
  case placed => cases h : repl.get? <;> simp [Operand.at?, h, at?]
  case above =>
    intro front rest hpath hrest
    exact absurd (List.append_eq_nil_iff.1 hpath.symm).2 hrest
  case beside =>
    intro other hother
    exact absurd List.nil_prefix hother.1
  case drawn => rfl

/-- What becomes of a child is put in its place. -/
theorem Replaced.child (hm : n.children[i]? = some m) (h : m.Replaced path repl s o s')
    (hn' : n.Refitted i o s'.node n') : n.Replaced (i :: path) repl s (.filled n') s'.next := by
  have hat : ∀ rest, Operand.at? (.filled n') (i :: rest) = o.at? rest := by
    intro rest
    change n'.at? (i :: rest) = _
    rw [at?, hn'.placed, Operand.at?]
    cases o.get? <;> rfl
  have hdrawn := h.drawn
  constructor
  case whole => exact fun hpath => by cases hpath
  case placed => rw [hat, h.placed]
  case above =>
    intro front rest hpath hrest
    cases front with
    | nil =>
      refine ⟨n, n', rfl, rfl, hn'.alike, ?_⟩
      rw [hn'.id_eq, ← show i :: path = rest from hpath, hdrawn]
      rfl
    | cons j front =>
      rw [List.cons_append, List.cons.injEq] at hpath
      obtain ⟨rfl, hpath⟩ := hpath
      obtain ⟨k, k', hk, hk', halike, hid⟩ := h.above front rest hpath hrest
      exact ⟨k, k', at?_cons_eq_some.2 ⟨m, hm, hk⟩, by rw [hat, hk'], halike, hid⟩
  case beside =>
    intro other hother
    cases other with
    | nil => exact absurd List.nil_prefix hother.2
    | cons j rest =>
      by_cases hj : j = i
      · subst hj
        have hrest : Beside path rest := by simpa [Beside, List.cons_prefix_cons] using hother
        rw [hat, h.beside rest hrest, at?, hm]
      · change n'.at? (j :: rest) = n.at? (j :: rest)
        rw [at?, at?, hn'.kept j hj]
  case drawn =>
    rw [hdrawn]
    simp [Supply.next, Nat.add_assoc]

/-- The place at the end of a path into a child. -/
theorem place?_cons {j : Nat} (hm : n.children[i]? = some m) :
    n.place? (i :: j :: path) = m.place? (j :: path) := by
  rw [place?, hm]

/-- Nothing is replaced in a node that does not hold the target. -/
theorem replace?_absent {target : NodeId} (h : n.Checked) (habs : target ∉ n.ids) :
    n.replace? target repl s = .ok (none, s) := by
  cases n with
  | expr e => exact Expr.replace?_absent h habs
  | stmt st => exact Stmt.replace?_absent h habs

theorem replace?_self (n : Node) : n.replace? n.id repl s = .ok (some repl, s) := by
  cases n with
  | expr e => exact Expr.replace?_self e s
  | stmt st => exact Stmt.replace?_self st s

/-- Replacing in a node replaces in its first child that holds the target. -/
theorem replace?_child {target : NodeId} {r : Except NodeError (Operand × Supply)}
    (h : n.Checked) (hid : n.id ≠ target) (hm : n.children[i]? = some m)
    (hbefore : ∀ j < i, ∀ k, n.children[j]? = some k → k.replace? target repl s = .ok (none, s))
    (hr : m.replace? target repl s = r.map fun p => (some p.1, p.2)) :
    n.replace? target repl s = r.bind fun p =>
      (n.put? i p.1 p.2.node).map fun n => (some (.filled n), p.2.next) := by
  cases n with
  | expr e => exact Expr.replace?_child h hid hm hbefore hr
  | stmt st => exact Stmt.replace?_child h hid hm hbefore hr

/-- The first child in which an identity occurs. -/
theorem exists_first_child {target : NodeId} (h : n.Checked) (hid : n.id ≠ target)
    (hmem : target ∈ n.ids) :
    ∃ (i : Nat) (m : Node), n.children[i]? = some m ∧ target ∈ m.ids ∧
      ∀ j < i, ∀ k, n.children[j]? = some k → target ∉ k.ids := by
  have hany : (n.children.findIdx? fun m => decide (target ∈ m.ids)).isSome = true := by
    rw [ids, nodes_eq h, List.map_cons, List.map_flatMap, List.mem_cons, List.mem_flatMap] at hmem
    rw [List.findIdx?_isSome, List.any_eq_true]
    rcases hmem with hmem | ⟨m, hm, hmem⟩
    · exact absurd hmem.symm hid
    · exact ⟨m, hm, by simpa [ids] using hmem⟩
  obtain ⟨i, hi⟩ := Option.isSome_iff_exists.1 hany
  obtain ⟨hlt, hfound, hfirst⟩ := List.findIdx?_eq_some_iff_getElem.1 hi
  refine ⟨i, n.children[i], List.getElem?_eq_getElem hlt, by simpa using hfound, ?_⟩
  intro j hj k hk
  obtain ⟨hlt', rfl⟩ := List.getElem?_eq_some_iff.1 hk
  simpa using hfirst j hj

/-- The first occurrence is replaced, unless its place refuses the operand. -/
theorem replace?_first {target : NodeId} (h : n.Checked) (hmem : target ∈ n.ids)
    (hrepl : ∀ v, repl ≠ .filled (.expr (.hole v))) (s : Supply) :
    ∃ path, n.FirstAt target path ∧
      (n.fits path repl = true → ∃ o s', n.replace? target repl s = .ok (some o, s') ∧
        n.Replaced path repl s o s') ∧
      (n.fits path repl = false → ∃ role, n.place? path = some role ∧
        n.replace? target repl s = .error (Build.refuse role repl)) := by
  induction n, h using Checked.induct with
  | step n h ih =>
    by_cases hid : n.id = target
    · subst hid
      exact ⟨[], .root rfl, fun _ => ⟨repl, s, n.replace?_self, .root n repl s⟩,
        fun hfits => by cases hfits⟩
    obtain ⟨i, m, hm, hmem, hfirst⟩ := exists_first_child h hid hmem
    obtain ⟨path, hpath, hok, hbad⟩ := ih m (List.mem_of_getElem? hm) hmem
    obtain ⟨role, hplace⟩ := exists_place h hm
    have hbefore : ∀ j < i, ∀ k, n.children[j]? = some k →
        k.replace? target repl s = .ok (none, s) := fun j hj k hk =>
      replace?_absent (h.of_mem_children (List.mem_of_getElem? hk)) (hfirst j hj k hk)
    have build : ∀ o s', (∀ v, o ≠ .filled (.expr (.hole v))) → role.accepts o = true →
        m.replace? target repl s = .ok (some o, s') → m.Replaced path repl s o s' →
        ∃ o s', n.replace? target repl s = .ok (some o, s') ∧
          n.Replaced (i :: path) repl s o s' := by
      intro o s' hhole haccepts hout hreplaced
      obtain ⟨n', hput, hn'⟩ := hplace.taken o s'.node hhole haccepts
      refine ⟨.filled n', s'.next, ?_, hreplaced.child hm hn'⟩
      rw [replace?_child h hid hm hbefore (r := .ok (o, s')) hout]
      simp [Except.bind, Except.map, hput]
    refine ⟨i :: path, hpath.child h hid hm hfirst, ?_⟩
    cases path with
    | nil =>
      have hself : m.replace? target repl s = .ok (some repl, s) := by
        obtain ⟨k, hk, rfl⟩ := hpath.found
        cases hk
        exact m.replace?_self
      have hrole : n.place? [i] = some role := hplace.role_eq
      have hfits : n.fits [i] repl = role.accepts repl := by rw [fits, hrole, Option.all_some]
      rw [hfits]
      constructor
      · intro haccepts
        exact build repl s hrepl haccepts hself (.root m repl s)
      · intro hrefuses
        refine ⟨role, hrole, ?_⟩
        rw [replace?_child h hid hm hbefore (r := .ok (repl, s)) hself]
        simp [Except.bind, Except.map, hplace.refused repl s.node hrefuses]
    | cons j path =>
      have hrole : n.place? (i :: j :: path) = m.place? (j :: path) := place?_cons hm
      have hfits : n.fits (i :: j :: path) repl = m.fits (j :: path) repl := by
        rw [fits, hrole, fits]
      rw [hfits]
      constructor
      · intro haccepts
        obtain ⟨o, s', hout, hreplaced⟩ := hok haccepts
        obtain ⟨k, k', hk, hk', halike, -⟩ := hreplaced.above [] (j :: path) rfl (by simp)
        cases hk
        obtain rfl : o = .filled k' := Operand.eq_filled_of_at? hk'
        apply build _ s' _ (halike.accepts hplace.accepts) hout hreplaced
        intro v hv
        cases hv
        cases halike
      · intro hrefuses
        obtain ⟨role', hplace', hout⟩ := hbad hrefuses
        refine ⟨role', by rw [hrole, hplace'], ?_⟩
        rw [replace?_child h hid hm hbefore (r := .error (Build.refuse role' repl)) hout]
        rfl

end Node

/-- A refused operand is an invalid operand. -/
theorem Build.errorClass_refuse (role : Role) (o : Operand) :
    (Build.refuse role o).errorClass = .invalidOperand := by
  cases o <;> rfl

namespace Operand

/-- The operand of a node is no hole. -/
theorem node_ne_hole (n : Node) (v : Option Variant) : node n ≠ .filled (.expr (.hole v)) := by
  intro h
  rcases node_cases n with hn | ⟨hn, hhole⟩
  · rw [h] at hn
    cases hn
  · rw [hn, Slot.filled.injEq] at h
    exact hhole v h

/-- A node contains another one when it has its identity. -/
theorem contains_filled {root target : Node} :
    contains (.filled root) (.filled target) = true ↔ target.id ∈ root.ids := by
  simp [contains, nodes, Node.same, Node.ids]

/-- Substituting a node replaces its first occurrence, if there is one. -/
theorem substitute_apply {root target : Node} {repl : Operand} (s : Supply)
    (h : same repl (.filled target) = false) :
    substitute (.filled root) (.filled target) repl s =
      (root.replace? target.id repl s).map fun p => (p.1.getD (.filled root), p.2) := by
  simp only [substitute, Slot.get?_filled, h, Bool.false_eq_true, if_false, Build.bind_apply,
    Build.pure_apply]
  cases root.replace? target.id repl s <;> rfl

end Operand

/-- Where the node does not occur, or is replaced by itself, the tree is kept.  Otherwise its
first occurrence is replaced if the operand fits the place, and the operand is refused if it does
not. -/
theorem substitute_first {root : Node} (hroot : root.Checked) (target repl : Node) (s : Supply) :
    (Operand.contains (.filled root) (.node target) = false ∨
        Operand.same (.node repl) (.node target) = true →
      Operand.substitute (.filled root) (.node target) (.node repl) s = .ok (.filled root, s)) ∧
    (Operand.contains (.filled root) (.node target) = true →
        Operand.same (.node repl) (.node target) = false →
      ∃ path, root.FirstAt target.id path ∧
        (root.fits path (.node repl) = true → ∃ o s',
          Operand.substitute (.filled root) (.node target) (.node repl) s = .ok (o, s') ∧
            root.Replaced path (.node repl) s o s') ∧
        (root.fits path (.node repl) = false → ∃ role, root.place? path = some role ∧
          Operand.substitute (.filled root) (.node target) (.node repl) s =
            .error (Build.refuse role (.node repl)) ∧
          (Build.refuse role (.node repl)).errorClass = .invalidOperand)) := by
  rcases Operand.node_cases target with hnone | ⟨htarget, -⟩
  · constructor
    · intro _
      rw [Operand.substitute, hnone]
      rfl
    · intro hcontains
      rw [Operand.contains, hnone] at hcontains
      cases hcontains
  rw [htarget]
  constructor
  · intro hkept
    cases hsame : Operand.same (.node repl) (.filled target) with
    | true =>
      rw [Operand.substitute, hsame]
      rfl
    | false =>
      have habsent : target.id ∉ root.ids := by
        rw [← Operand.contains_filled, Bool.not_eq_true]
        simpa [hsame] using hkept
      rw [Operand.substitute_apply s hsame, Node.replace?_absent hroot habsent]
      rfl
  · intro hcontains hsame
    obtain ⟨path, hfirst, hok, hbad⟩ := Node.replace?_first hroot
      (Operand.contains_filled.1 hcontains) (Operand.node_ne_hole repl) s
    rw [Operand.substitute_apply s hsame]
    refine ⟨path, hfirst, ?_, ?_⟩
    · intro hfits
      obtain ⟨o, s', hreplace, hreplaced⟩ := hok hfits
      exact ⟨o, s', by rw [hreplace]; rfl, hreplaced⟩
    · intro hfits
      obtain ⟨role, hplace, hreplace⟩ := hbad hfits
      exact ⟨role, hplace, by rw [hreplace]; rfl, Build.errorClass_refuse role _⟩

/-- The comparison `x <= 1`. -/
def sharedTest : Expr := .binary 5 .le (.identifier ⟨3, "x"⟩) (.constant ⟨6, .int 1⟩)

/-- The statement `x = x <= 1 && x <= 1;`, in which one comparison stands at two places and one
name at three. -/
def sharedCode : Node :=
  .stmt (.expression 1 (some (.assign 2 ⟨3, "x"⟩ (.binary 4 .and sharedTest sharedTest))))

theorem sharedCode_checked : sharedCode.Checked := by
  simp [sharedCode, sharedTest, Node.Checked, Identifier.Checked, BinaryOp.known]

/-- The name occurs first where it is assigned to. -/
theorem sharedCode_firstAt_name : sharedCode.FirstAt 3 [0, 0] := by
  refine .child sharedCode_checked (by decide) rfl (by simp) ?_
  exact .child sharedCode_checked (by decide) rfl (by simp) (.root rfl)

/-- The comparison occurs first as the left operand. -/
theorem sharedCode_firstAt_test : sharedCode.FirstAt 5 [0, 1, 0] := by
  refine .child sharedCode_checked (by decide) rfl (by simp) ?_
  refine .child sharedCode_checked (by decide) rfl ?_ ?_
  · intro j hj k hk
    obtain rfl : j = 0 := by omega
    cases hk
    decide
  · exact .child sharedCode_checked.2 (by decide) rfl (by simp) (.root rfl)

/-- Of the shared comparison the first occurrence is replaced; a constant is refused in place of
the name, whose first occurrence is the one assigned to. -/
theorem substitute_first_sharedCode :
    sharedCode.Checked ∧
    (∃ o s', Operand.substitute (.filled sharedCode) (.node (.expr sharedTest))
        (.node (.expr (.constant ⟨7, .int 0⟩))) ⟨8, 0⟩ = .ok (o, s') ∧
      sharedCode.Replaced [0, 1, 0] (.node (.expr (.constant ⟨7, .int 0⟩))) ⟨8, 0⟩ o s') ∧
    Operand.substitute (.filled sharedCode) (.node (.expr (.identifier ⟨3, "x"⟩)))
        (.node (.expr (.constant ⟨7, .int 0⟩))) ⟨8, 0⟩ =
      .error (.misfit .assignTarget (.of .constant)) := by
  refine ⟨sharedCode_checked, ?_, ?_⟩
  · obtain ⟨path, hfirst, hok, -⟩ := (substitute_first sharedCode_checked (.expr sharedTest)
      (.expr (.constant ⟨7, .int 0⟩)) ⟨8, 0⟩).2 (by decide) (by decide)
    obtain rfl := hfirst.unique sharedCode_firstAt_test
    exact hok (by decide)
  · obtain ⟨path, hfirst, -, hbad⟩ := (substitute_first sharedCode_checked
      (.expr (.identifier ⟨3, "x"⟩)) (.expr (.constant ⟨7, .int 0⟩)) ⟨8, 0⟩).2
      (by decide) (by decide)
    obtain rfl := hfirst.unique sharedCode_firstAt_name
    obtain ⟨role, hrole, herror, -⟩ := hbad (by decide)
    obtain rfl : Role.assignTarget = role := Option.some.inj hrole
    exact herror

end Stepwise
