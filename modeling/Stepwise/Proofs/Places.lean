import Stepwise.Proofs.Paths

/-!
# Proofs - The places of a node

Every child of a node stands at a place, which asks for an expression, a statement or a name, and
which may or may not be left empty.  A node can be built anew with another operand at one of its
places; the operand is refused exactly if the place does not accept it.

Main results:

- `Node.put?`: a node built anew, with an operand put at one of its places.
- `Node.Alike`: what such a node has in common with the old one.
- `Node.exists_place`: every child stands at a place that takes what it accepts and refuses
  everything else.
-/

namespace Stepwise

/-! ## Places and what they accept -/

/-- The place of a node at which its child of a number stands. -/
def Node.role? : Node → Nat → Option Role
  | .expr (.binary ..), 0 => some .leftOperand
  | .expr (.binary ..), 1 => some .rightOperand
  | .expr (.assign ..), 0 => some .assignTarget
  | .expr (.assign ..), 1 => some .assignedValue
  | .expr (.addAssign ..), 0 => some .assignTarget
  | .expr (.addAssign ..), 1 => some .addedValue
  | .expr (.increment ..), 0 => some .incrementTarget
  | .expr (.invoke ..), 0 => some .callee
  | .expr (.invoke ..), _ + 1 => some .argument
  | .stmt (.expression ..), 0 => some .statementValue
  | .stmt (.declaration ..), 0 => some .declaredName
  | .stmt (.declaration ..), 1 => some .initializer
  | .stmt (.block ..), _ => some .blockStatement
  | .stmt (.forLoop ..), 0 => some .forInit
  | .stmt (.forLoop ..), 1 => some .forCond
  | .stmt (.forLoop ..), 2 => some .forUpdate
  | .stmt (.forLoop ..), 3 => some .forBody
  | .stmt (.ifThen ..), 0 => some .ifCond
  | .stmt (.ifThen ..), 1 => some .ifBody
  | .stmt (.condJump ..), 0 => some .jumpCond
  | .stmt (.undeclaration ..), 0 => some .undeclaredName
  | _, _ => none

/-- The place at the end of a path; the root stands at none. -/
def Node.place? : Node → List Nat → Option Role
  | _, [] => none
  | n, [i] => n.role? i
  | n, i :: j :: path =>
    match n.children[i]? with
    | some m => m.place? (j :: path)
    | none => none

/-- Whether a node is of the class that is asked for. -/
def Node.meets : Node → Demand → Bool
  | .expr _, .expression => true
  | .expr (.identifier _), .identifier => true
  | .stmt _, .statement => true
  | .stmt (.label _), .label => true
  | _, _ => false

/-- Whether a place may be left empty. -/
def Role.optional : Role → Bool
  | .statementValue => true
  | .initializer => true
  | _ => false

/-- Whether a place accepts an operand. -/
def Role.accepts (role : Role) : Operand → Bool
  | .filled n => n.meets role.demand
  | _ => role.optional

open Build in
/-- A node built anew, under another identity, with an operand put at one of its places. -/
def Node.put? (n : Node) (i : Nat) (o : Operand) (id : NodeId) : Except NodeError Node :=
  match n, i with
  | .expr (.binary _ op _ r), 0 => (asExpr .leftOperand o).map fun l => .expr (.binary id op l r)
  | .expr (.binary _ op l _), 1 => (asExpr .rightOperand o).map fun r => .expr (.binary id op l r)
  | .expr (.assign _ _ v), 0 => (asIdentifier .assignTarget o).map fun x => .expr (.assign id x v)
  | .expr (.assign _ x _), 1 => (asExpr .assignedValue o).map fun v => .expr (.assign id x v)
  | .expr (.addAssign _ _ v), 0 =>
    (asIdentifier .assignTarget o).map fun x => .expr (.addAssign id x v)
  | .expr (.addAssign _ x _), 1 => (asExpr .addedValue o).map fun v => .expr (.addAssign id x v)
  | .expr (.increment _ _), 0 =>
    (asIdentifier .incrementTarget o).map fun x => .expr (.increment id x)
  | .expr (.invoke _ _ args), 0 => (asIdentifier .callee o).map fun f => .expr (.invoke id f args)
  | .expr (.invoke _ f args), k + 1 =>
    (asExpr .argument o).map fun e => .expr (.invoke id f (args.set k e))
  | .stmt (.expression _ _), 0 => (asOptional .statementValue o).map fun v => .stmt (.expression id v)
  | .stmt (.declaration _ t _ v), 0 =>
    (asIdentifier .declaredName o).map fun x => .stmt (.declaration id t x v)
  | .stmt (.declaration _ t x _), 1 =>
    (asOptional .initializer o).map fun v => .stmt (.declaration id t x v)
  | .stmt (.block _ ss), k => (asStmt .blockStatement o).map fun st => .stmt (.block id (ss.set k st))
  | .stmt (.forLoop _ _ c u b), 0 => (asStmt .forInit o).map fun i => .stmt (.forLoop id i c u b)
  | .stmt (.forLoop _ i _ u b), 1 => (asStmt .forCond o).map fun c => .stmt (.forLoop id i c u b)
  | .stmt (.forLoop _ i c _ b), 2 => (asStmt .forUpdate o).map fun u => .stmt (.forLoop id i c u b)
  | .stmt (.forLoop _ i c u _), 3 => (asStmt .forBody o).map fun b => .stmt (.forLoop id i c u b)
  | .stmt (.ifThen _ _ b), 0 => (asExpr .ifCond o).map fun c => .stmt (.ifThen id c b)
  | .stmt (.ifThen _ c _), 1 => (asStmt .ifBody o).map fun b => .stmt (.ifThen id c b)
  | .stmt (.condJump _ _ t f origin), 0 =>
    (asExpr .jumpCond o).map fun c => .stmt (.condJump id c t f origin)
  | .stmt (.undeclaration _ _), 0 =>
    (asIdentifier .undeclaredName o).map fun x => .stmt (.undeclaration id x)
  | n, _ => .ok n

/-! ## Nodes built anew -/

/-- An expression that is no hole is a node. -/
theorem Expr.node?_of_ne_hole {e : Expr} (h : ∀ v, e ≠ .hole v) : e.node? = some (.expr e) := by
  cases e with
  | hole v => exact absurd rfl (h v)
  | _ => rfl

namespace Role

variable {role : Role}

/-- How the operands of a place are read: what is made by `wrap` is accepted, all else is
refused. -/
structure Reads {α : Type} (role : Role) (as : Operand → Except NodeError α) (wrap : α → Node) :
    Prop where
  accepted : ∀ a, as (.filled (wrap a)) = .ok a ∧ role.accepts (.filled (wrap a)) = true
  refused : ∀ o, (∀ a, o ≠ .filled (wrap a)) →
    as o = .error (Build.refuse role o) ∧ role.accepts o = false

/-- A role that demands an expression reads operands as expressions. -/
theorem reads_expr (hdemand : role.demand = .expression) (hoptional : role.optional = false) :
    role.Reads (Build.asExpr role) .expr := by
  refine ⟨fun e => ⟨rfl, by simp [accepts, hdemand, Node.meets]⟩, ?_⟩
  intro o ho
  rcases o with _ | v | e | st
  · exact ⟨rfl, hoptional⟩
  · exact ⟨rfl, hoptional⟩
  · exact absurd rfl (ho e)
  · exact ⟨rfl, by simp [accepts, hdemand, Node.meets]⟩

/-- A role that demands a statement reads operands as statements. -/
theorem reads_stmt (hdemand : role.demand = .statement) (hoptional : role.optional = false) :
    role.Reads (Build.asStmt role) .stmt := by
  refine ⟨fun st => ⟨rfl, by simp [accepts, hdemand, Node.meets]⟩, ?_⟩
  intro o ho
  rcases o with _ | v | e | st
  · exact ⟨rfl, hoptional⟩
  · exact ⟨rfl, hoptional⟩
  · exact ⟨rfl, by simp [accepts, hdemand, Node.meets]⟩
  · exact absurd rfl (ho st)

/-- A role that demands a name reads operands as names. -/
theorem reads_identifier (hdemand : role.demand = .identifier)
    (hoptional : role.optional = false) : role.Reads (Build.asIdentifier role) Identifier.node := by
  refine ⟨fun x => ⟨rfl, by simp [accepts, hdemand, Node.meets, Identifier.node]⟩, ?_⟩
  intro o ho
  rcases o with _ | v | e | st
  · exact ⟨rfl, hoptional⟩
  · exact ⟨rfl, hoptional⟩
  · cases e with
    | identifier x => exact absurd rfl (ho x)
    | _ => exact ⟨rfl, by simp [accepts, hdemand, Node.meets]⟩
  · exact ⟨rfl, by simp [accepts, hdemand, Node.meets]⟩

end Role

namespace Node

/-- A node and one built anew from other children: the variant is kept, with the operator, the
datatype, the labels and the origin. -/
inductive Alike : Node → Node → Prop
  | binary (id id' : NodeId) (op : BinaryOp) (l r l' r' : Expr) :
      Alike (.expr (.binary id op l r)) (.expr (.binary id' op l' r'))
  | assign (id id' : NodeId) (x x' : Identifier) (v v' : Expr) :
      Alike (.expr (.assign id x v)) (.expr (.assign id' x' v'))
  | addAssign (id id' : NodeId) (x x' : Identifier) (v v' : Expr) :
      Alike (.expr (.addAssign id x v)) (.expr (.addAssign id' x' v'))
  | increment (id id' : NodeId) (x x' : Identifier) :
      Alike (.expr (.increment id x)) (.expr (.increment id' x'))
  | invoke (id id' : NodeId) (f f' : Identifier) (args args' : List Expr) :
      Alike (.expr (.invoke id f args)) (.expr (.invoke id' f' args'))
  | expression (id id' : NodeId) (v v' : Option Expr) :
      Alike (.stmt (.expression id v)) (.stmt (.expression id' v'))
  | declaration (id id' : NodeId) (t : Datatype) (x x' : Identifier) (v v' : Option Expr) :
      Alike (.stmt (.declaration id t x v)) (.stmt (.declaration id' t x' v'))
  | block (id id' : NodeId) (ss ss' : List Stmt) :
      Alike (.stmt (.block id ss)) (.stmt (.block id' ss'))
  | forLoop (id id' : NodeId) (i c u b i' c' u' b' : Stmt) :
      Alike (.stmt (.forLoop id i c u b)) (.stmt (.forLoop id' i' c' u' b'))
  | ifThen (id id' : NodeId) (c c' : Expr) (b b' : Stmt) :
      Alike (.stmt (.ifThen id c b)) (.stmt (.ifThen id' c' b'))
  | condJump (id id' : NodeId) (c c' : Expr) (t f : Label) (origin : Stmt) :
      Alike (.stmt (.condJump id c t f origin)) (.stmt (.condJump id' c' t f origin))
  | undeclaration (id id' : NodeId) (x x' : Identifier) :
      Alike (.stmt (.undeclaration id x)) (.stmt (.undeclaration id' x'))

variable {n n' m m' : Node} {i : Nat} {o : Operand} {role : Role} {id : NodeId}

/-- A node built anew is accepted wherever the old one is. -/
theorem Alike.accepts (h : m.Alike m') (ha : role.accepts (.filled m) = true) :
    role.accepts (.filled m') = true := by
  cases h <;> cases role <;> first | rfl | cases ha

/-- A node built anew with an operand at one of its places: the other children are kept. -/
structure Refitted (n : Node) (i : Nat) (o : Operand) (id : NodeId) (n' : Node) : Prop where
  id_eq : n'.id = id
  alike : n.Alike n'
  placed : n'.children[i]? = o.get?
  kept : ∀ j, j ≠ i → n'.children[j]? = n.children[j]?

/-- A place of a node takes the operands that it accepts, its own child among them, and refuses
all others. -/
structure Place (n : Node) (i : Nat) (m : Node) (role : Role) : Prop where
  role_eq : n.role? i = some role
  accepts : role.accepts (.filled m) = true
  refused : ∀ (o : Operand) (id : NodeId), role.accepts o = false →
    n.put? i o id = .error (Build.refuse role o)
  taken : ∀ (o : Operand) (id : NodeId), (∀ v, o ≠ .filled (.expr (.hole v))) →
    role.accepts o = true → ∃ n', n.put? i o id = .ok n' ∧ n.Refitted i o id n'

/-- A node with one child set is refitted there. -/
theorem Refitted.of_set (hi : i < n.children.length) (hid : n'.id = id) (halike : n.Alike n')
    (hset : n'.children = n.children.set i m') : n.Refitted i (.filled m') id n' := by
  refine ⟨hid, halike, ?_, ?_⟩
  · rw [hset, List.getElem?_set_self hi]
    rfl
  · intro j hj
    rw [hset, List.getElem?_set_ne (Ne.symm hj)]

/-- A place that must not be left empty. -/
theorem Place.required {α : Type} {as : Operand → Except NodeError α} {wrap : α → Node} {a : α}
    {f : α → NodeId → Node} (hreads : role.Reads as wrap) (hrole : n.role? i = some role)
    (hm : n.children[i]? = some (wrap a)) (hput : ∀ o id, n.put? i o id = (as o).map (f · id))
    (hf : ∀ a id, (∀ v, wrap a ≠ .expr (.hole v)) → (f a id).id = id ∧ n.Alike (f a id) ∧
      (f a id).children = n.children.set i (wrap a)) :
    n.Place i (wrap a) role := by
  have hi := (List.getElem?_eq_some_iff.1 hm).1
  refine ⟨hrole, (hreads.accepted a).2, ?_, ?_⟩
  · intro o id ho
    have hnot : ∀ a, o ≠ .filled (wrap a) := by
      rintro a rfl
      rw [(hreads.accepted a).2] at ho
      cases ho
    rw [hput, (hreads.refused o hnot).1]
    rfl
  · intro o id hhole ho
    by_cases hwrap : ∃ a, o = .filled (wrap a)
    · obtain ⟨a, rfl⟩ := hwrap
      obtain ⟨hid, halike, hset⟩ := hf a id fun v hv => hhole v (by rw [hv])
      exact ⟨f a id, by rw [hput, (hreads.accepted a).1]; rfl, .of_set hi hid halike hset⟩
    · rw [(hreads.refused o fun a ha => hwrap ⟨a, ha⟩).2] at ho
      cases ho

/-- A place for an expression that may be left empty, after all other children. -/
theorem Place.optional {e : Expr} {f : Option Expr → NodeId → Node} (front : List Node)
    (hchildren : n.children = front ++ [.expr e])
    (hrole : n.role? front.length = some role) (hdemand : role.demand = .expression)
    (hoptional : role.optional = true)
    (hput : ∀ o id, n.put? front.length o id = (Build.asOptional role o).map (f · id))
    (hf : ∀ v id, (f v id).id = id ∧ n.Alike (f v id) ∧
      (f v id).children = front ++ (v.map .expr).toList) :
    n.Place front.length (.expr e) role := by
  refine ⟨hrole, by simp [Role.accepts, hdemand, meets], ?_, ?_⟩
  · intro o id ho
    rw [hput]
    rcases o with _ | v | e | st
    · simp [Role.accepts, hoptional] at ho
    · simp [Role.accepts, hoptional] at ho
    · simp [Role.accepts, hdemand, meets] at ho
    · rfl
  · have empty : ∀ id, n.Refitted front.length .empty id (f none id) := by
      intro id
      obtain ⟨hid, halike, hset⟩ := hf none id
      refine ⟨hid, halike, by simp [hset], ?_⟩
      intro j hj
      rw [hset, hchildren]
      grind
    intro o id _ ho
    rw [hput]
    rcases o with _ | v | e' | st
    · exact ⟨_, rfl, empty id⟩
    · exact ⟨_, rfl, (empty id).id_eq, (empty id).alike, (empty id).placed, (empty id).kept⟩
    · obtain ⟨hid, halike, hset⟩ := hf (some e') id
      refine ⟨_, rfl, .of_set ?_ hid halike ?_⟩
      · simp [hchildren]
      · simp [hchildren, hset]
    · simp [Role.accepts, hdemand, meets] at ho

/-- Every child stands at a place that takes what it accepts. -/
theorem exists_place (hn : n.Checked) (hm : n.children[i]? = some m) :
    ∃ role, n.Place i m role := by
  cases n with
  | expr e =>
    cases e with
    | identifier | constant | hole => cases hm
    | binary id op l r =>
      obtain ⟨-, hl, hr⟩ : op.known = true ∧ l.Checked ∧ r.Checked := hn
      have hchildren : ∀ (id : NodeId) {l r : Expr}, (∀ v, l ≠ .hole v) → (∀ v, r ≠ .hole v) →
          (Node.expr (.binary id op l r)).children = [.expr l, .expr r] := by
        intro id l r hl hr
        simp [children, Expr.node?_of_ne_hole hl, Expr.node?_of_ne_hole hr]
      have hboth := hchildren id hl.ne_hole hr.ne_hole
      rw [hboth] at hm
      rcases i with _ | _ | i
      · cases hm
        refine ⟨_, .required (f := fun l id => .expr (.binary id op l r)) (Role.reads_expr rfl rfl) rfl
          (by rw [hboth]; rfl) (fun _ _ => rfl) ?_⟩
        intro e id he
        refine ⟨rfl, .binary .., ?_⟩
        rw [hboth, hchildren id (fun v hv => he v (by rw [hv])) hr.ne_hole]
        rfl
      · cases hm
        refine ⟨_, .required (f := fun r id => .expr (.binary id op l r)) (Role.reads_expr rfl rfl) rfl
          (by rw [hboth]; rfl) (fun _ _ => rfl) ?_⟩
        intro e id he
        refine ⟨rfl, .binary .., ?_⟩
        rw [hboth, hchildren id hl.ne_hole (fun v hv => he v (by rw [hv]))]
        rfl
      · cases hm
    | assign id x v =>
      rcases i with _ | _ | i
      · cases hm
        exact ⟨_, .required (Role.reads_identifier rfl rfl) rfl rfl (fun _ _ => rfl)
          fun x id _ => ⟨rfl, .assign .., rfl⟩⟩
      · cases hm
        exact ⟨_, .required (Role.reads_expr rfl rfl) rfl rfl (fun _ _ => rfl)
          fun v id _ => ⟨rfl, .assign .., rfl⟩⟩
      · cases hm
    | addAssign id x v =>
      rcases i with _ | _ | i
      · cases hm
        exact ⟨_, .required (Role.reads_identifier rfl rfl) rfl rfl (fun _ _ => rfl)
          fun x id _ => ⟨rfl, .addAssign .., rfl⟩⟩
      · cases hm
        exact ⟨_, .required (Role.reads_expr rfl rfl) rfl rfl (fun _ _ => rfl)
          fun v id _ => ⟨rfl, .addAssign .., rfl⟩⟩
      · cases hm
    | increment id x =>
      rcases i with _ | i
      · cases hm
        exact ⟨_, .required (Role.reads_identifier rfl rfl) rfl rfl (fun _ _ => rfl)
          fun x id _ => ⟨rfl, .increment .., rfl⟩⟩
      · cases hm
    | invoke id f args =>
      rcases i with _ | i
      · cases hm
        exact ⟨_, .required (Role.reads_identifier rfl rfl) rfl rfl (fun _ _ => rfl)
          fun x id _ => ⟨rfl, .invoke .., rfl⟩⟩
      · have hlook := hm
        simp only [children, List.getElem?_cons_succ, List.getElem?_map,
          Option.map_eq_some_iff] at hlook
        obtain ⟨e, -, rfl⟩ := hlook
        exact ⟨_, .required (Role.reads_expr rfl rfl) rfl hm (fun _ _ => rfl)
          fun e id _ => ⟨rfl, .invoke .., by simp [children, List.map_set]⟩⟩
  | stmt st =>
    cases st with
    | label | jump => cases hm
    | expression id v =>
      cases v with
      | none => cases hm
      | some e =>
        rcases i with _ | i
        · cases hm
          exact ⟨_, .optional [] rfl rfl rfl rfl (fun _ _ => rfl)
            fun v id => ⟨rfl, .expression .., rfl⟩⟩
        · cases hm
    | declaration id t x v =>
      rcases i with _ | i
      · cases hm
        exact ⟨_, .required (Role.reads_identifier rfl rfl) rfl rfl (fun _ _ => rfl)
          fun x id _ => ⟨rfl, .declaration .., rfl⟩⟩
      · cases v with
        | none => cases hm
        | some e =>
          rcases i with _ | i
          · cases hm
            exact ⟨_, .optional [x.node] rfl rfl rfl rfl (fun _ _ => rfl)
              fun v id => ⟨rfl, .declaration .., rfl⟩⟩
          · cases hm
    | block id ss =>
      have hlook := hm
      simp only [children, List.getElem?_map, Option.map_eq_some_iff] at hlook
      obtain ⟨st, -, rfl⟩ := hlook
      exact ⟨_, .required (Role.reads_stmt rfl rfl) rfl hm (fun _ _ => rfl)
        fun st id _ => ⟨rfl, .block .., by simp [children, List.map_set]⟩⟩
    | forLoop id init c u b =>
      rcases i with _ | _ | _ | _ | i <;> cases hm
      all_goals exact ⟨_, .required (Role.reads_stmt rfl rfl) rfl rfl (fun _ _ => rfl)
        fun st id _ => ⟨rfl, .forLoop .., rfl⟩⟩
    | ifThen id c b =>
      rcases i with _ | _ | i
      · cases hm
        exact ⟨_, .required (Role.reads_expr rfl rfl) rfl rfl (fun _ _ => rfl)
          fun e id _ => ⟨rfl, .ifThen .., rfl⟩⟩
      · cases hm
        exact ⟨_, .required (Role.reads_stmt rfl rfl) rfl rfl (fun _ _ => rfl)
          fun st id _ => ⟨rfl, .ifThen .., rfl⟩⟩
      · cases hm
    | condJump id c t f origin =>
      rcases i with _ | i
      · cases hm
        exact ⟨_, .required (Role.reads_expr rfl rfl) rfl rfl (fun _ _ => rfl)
          fun e id _ => ⟨rfl, .condJump .., rfl⟩⟩
      · cases hm
    | undeclaration id x =>
      rcases i with _ | i
      · cases hm
        exact ⟨_, .required (Role.reads_identifier rfl rfl) rfl rfl (fun _ _ => rfl)
          fun x id _ => ⟨rfl, .undeclaration .., rfl⟩⟩
      · cases hm

end Node

end Stepwise
