import Stepwise.Proofs.Paths
import Stepwise.Proofs.Printing
import Mathlib.Data.List.Chain

/-!
# Proofs - The pieces of a text

The text of a node is made of texts of its own and of the texts of its children.  Every child is
printed once, in the order of the children, and between the texts of two children stands a text of
the node itself.

Main results:

- `Node.pieces`: the pieces of the text of a node.
- `Node.textAt_eq`: the text of a node is that of its pieces.
- `Node.children_pieces` and `Node.isChain_pieces`: the children among the pieces, and what is
  between them.
- `Node.children_around` and `Node.own_around`: the pieces around the text of a child.
-/

namespace Stepwise

/-! ## Pieces -/

/-- The text of a node at a level of nesting; `last` tells whether it ends the update of a
loop, where a closing semicolon is left out. -/
def Node.textAt (last : Bool) (depth : Nat) : Node → List Fragment
  | expr e => e.fragments
  | stmt s => Fragment.trim last (s.fragments depth)

/-- A piece of the text of a node: a text of its own, or the text of the child of a number. -/
inductive Piece where
  | own (text : String)
  | part (index : Nat) (child : Node) (last : Bool) (depth : Nat)

namespace Piece

/-- Whether a piece is a text of the node itself. -/
def isOwn : Piece → Bool
  | own _ => true
  | part .. => false

/-- The child whose text a piece is, with its number. -/
def child? : Piece → Option (Node × Nat)
  | own _ => none
  | part i m _ _ => some (m, i)

/-- The fragments of a piece. -/
def fragments (owner : Node) : Piece → List Fragment
  | own text => [⟨text, .filled owner⟩]
  | part _ m last depth => m.textAt last depth

/-- The texts of further children, each after a separator. -/
def separated (separator : String) (depth : Nat) : Nat → List Node → List Piece
  | _, [] => []
  | i, m :: ms => own separator :: part i m false depth :: separated separator depth (i + 1) ms

/-- A closing semicolon, unless it is left out. -/
def semicolon (last : Bool) : List Piece :=
  if last then [] else [own ";"]

end Piece

open Piece in
/-- The pieces of the text of a node, in the order in which they are printed. -/
def Node.pieces (last : Bool) (depth : Nat) : Node → List Piece
  | .expr (.identifier x) => [own x.name]
  | .expr (.constant c) => if c.value.datatype = .void then [] else [own c.value.text]
  | .expr (.binary _ op l r) =>
    [part 0 (.expr l) false depth, own (" " ++ op.text ++ " "), part 1 (.expr r) false depth]
  | .expr (.assign _ x v) => [part 0 x.node false depth, own " = ", part 1 (.expr v) false depth]
  | .expr (.addAssign _ x v) =>
    [part 0 x.node false depth, own " += ", part 1 (.expr v) false depth]
  | .expr (.increment _ x) => [part 0 x.node false depth, own "++"]
  | .expr (.invoke _ f []) => [part 0 f.node false depth, own "()"]
  | .expr (.invoke _ f (e :: es)) =>
    part 0 f.node false depth :: own "(" :: part 1 (.expr e) false depth ::
      (separated ", " depth 2 (es.map .expr) ++ [own ")"])
  | .expr (.hole _) => []
  | .stmt (.expression _ none) => semicolon last
  | .stmt (.expression _ (some e)) => part 0 (.expr e) false depth :: semicolon last
  | .stmt (.declaration _ t x none) =>
    own (t.text ++ " ") :: part 0 x.node false depth :: semicolon last
  | .stmt (.declaration _ t x (some e)) =>
    own (t.text ++ " ") :: part 0 x.node false depth :: own " = " ::
      part 1 (.expr e) false depth :: semicolon last
  | .stmt (.block _ []) => [own "\x7b\x7d"]
  | .stmt (.block _ (s :: ss)) =>
    own "\x7b\n" :: own (Fragment.indentation (depth + 1)) :: part 0 (.stmt s) false (depth + 1) ::
      (separated ("\n" ++ Fragment.indentation (depth + 1)) (depth + 1) 1 (ss.map .stmt) ++
        [own ("\n" ++ Fragment.indentation depth ++ "\x7d")])
  | .stmt (.ifThen id c b) =>
    [own "if (", part 0 (.expr c) false depth,
      own (b.closeHeader depth (.ifThen id c b)).text, part 1 (.stmt b) last (b.bodyDepth depth)]
  | .stmt (.forLoop id i c u b) =>
    [own "for (", part 0 (.stmt i) false depth, own " ", part 1 (.stmt c) false depth, own " ",
      part 2 (.stmt u) true depth, own (b.closeHeader depth (.forLoop id i c u b)).text,
      part 3 (.stmt b) last (b.bodyDepth depth)]
  | .stmt (.label l) => [own (l.name ++ ":")]
  | .stmt (.jump _ l) => [own ("goto " ++ l.name ++ ";")]
  | .stmt (.condJump _ c t f _) =>
    [own "if (", part 0 (.expr c) false depth,
      own (") goto " ++ t.name ++ "; else goto " ++ f.name ++ ";")]
  | .stmt (.undeclaration _ x) => own "undeclare " :: part 0 x.node false depth :: semicolon last

/-! ## The text of the pieces -/

namespace Piece

/-- Separated expressions are printed with the separator before each of them. -/
theorem fragments_separated_expr (owner : Node) (sep : String) (depth i : Nat) (es : List Expr) :
    (separated sep depth i (es.map .expr)).flatMap (fragments owner) =
      Expr.moreFragments ⟨sep, .filled owner⟩ es := by
  induction es generalizing i with
  | nil => rfl
  | cons e es ih => simp [separated, fragments, Node.textAt, Expr.moreFragments, ih]

/-- Separated statements are printed with the separator before each of them. -/
theorem fragments_separated_stmt (owner : Node) (sep : String) (depth i : Nat) (ss : List Stmt) :
    (separated sep depth i (ss.map .stmt)).flatMap (fragments owner) =
      Stmt.moreFragments depth ⟨sep, .filled owner⟩ ss := by
  induction ss generalizing i with
  | nil => rfl
  | cons s ss ih => simp [separated, fragments, Node.textAt, Stmt.moreFragments, ih]

/-- The semicolon of a statement is printed unless the statement ends a header. -/
theorem fragments_semicolon (s : Stmt) (last : Bool) :
    (semicolon last).flatMap (fragments (.stmt s)) = Fragment.trim last [.ofStmt ";" s] := by
  cases last <;> simp [semicolon, fragments, Fragment.dropSemicolon, Fragment.ofStmt]

end Piece

/-- A text that ends with another character than a semicolon is not trimmed. -/
theorem Fragment.trim_singleton (last : Bool) {f : Fragment} (h : f.text ≠ ";") :
    trim last [f] = [f] := by
  cases last <;> simp [dropSemicolon, h]

open Fragment in
/-- The text of a node is that of its pieces. -/
theorem Node.textAt_eq (n : Node) (last : Bool) (depth : Nat) :
    n.textAt last depth = (n.pieces last depth).flatMap (Piece.fragments n) := by
  cases n with
  | expr e =>
    cases e with
    | constant c =>
      by_cases hc : c.value.datatype = .void <;>
        simp [textAt, pieces, Expr.fragments, Constant.fragments, hc, Piece.fragments, ofExpr]
    | invoke id f args =>
      cases args with
      | nil =>
        simp [textAt, pieces, Expr.fragments, Piece.fragments, ofExpr, Identifier.node]
      | cons e es =>
        simp [textAt, pieces, Expr.fragments, Piece.fragments, ofExpr, Identifier.node,
          Piece.fragments_separated_expr]
    | _ => simp [textAt, pieces, Expr.fragments, Piece.fragments, ofExpr, Identifier.node,
        Identifier.fragment]
  | stmt s =>
    cases s with
    | expression id v =>
      cases v with
      | none =>
        simp only [textAt, pieces, Piece.fragments_semicolon, Stmt.fragments, Expr.optionFragments,
          List.nil_append]
      | some e =>
        simp only [textAt, pieces, List.flatMap_cons, Piece.fragments_semicolon, Stmt.fragments,
          Expr.optionFragments, trim_append last e.fragments (List.cons_ne_nil _ _),
          Piece.fragments]
    | declaration id t x v =>
      cases v with
      | none =>
        simp only [textAt, pieces, List.flatMap_cons, Piece.fragments_semicolon, Stmt.fragments,
          List.nil_append, Piece.fragments]
        rw [trim_cons _ _ (by simp), trim_cons _ _ (by simp)]
        rfl
      | some e =>
        simp only [textAt, pieces, List.flatMap_cons, Piece.fragments_semicolon, Stmt.fragments,
          Piece.fragments]
        rw [trim_cons _ _ (by simp), trim_cons _ _ (by simp), trim_append _ _ (by simp)]
        rfl
    | block id ss =>
      rw [textAt, Shell.trim_block]
      cases ss with
      | nil => rfl
      | cons s ss =>
        simp [pieces, Stmt.fragments, Piece.fragments, Piece.fragments_separated_stmt, textAt,
          ofStmt]
    | forLoop id i c u b =>
      rw [textAt, Shell.trim_forLoop]
      simp [pieces, Piece.fragments, textAt, ofStmt, Stmt.closeHeader]
    | ifThen id c b =>
      have hb := b.fragments_ne_nil (b.bodyDepth depth)
      rw [textAt, Stmt.fragments, trim_cons _ _ (by simp), trim_append _ _ (by simp),
        trim_cons _ _ hb]
      simp [pieces, Piece.fragments, textAt, ofStmt, Stmt.closeHeader]
    | label l =>
      have hne : l.name ++ ":" ≠ ";" := by
        intro h
        have hlast := congrArg (fun text => text.toList.getLast?) h
        simp at hlast
      exact trim_singleton last hne
    | jump id l =>
      have hne : "goto " ++ l.name ++ ";" ≠ ";" := by
        intro h
        have hhead := congrArg (fun text => text.toList.head?) h
        simp at hhead
      exact trim_singleton last hne
    | condJump id c t f o =>
      have hne : ") goto " ++ t.name ++ "; else goto " ++ f.name ++ ";" ≠ ";" := by
        intro h
        have hhead := congrArg (fun text => text.toList.head?) h
        simp at hhead
      rw [textAt, Stmt.fragments, trim_cons _ _ (by simp), trim_append _ _ (by simp),
        trim_singleton last hne]
      rfl
    | undeclaration id x =>
      simp only [textAt, pieces, List.flatMap_cons, Piece.fragments_semicolon, Stmt.fragments,
        Piece.fragments]
      rw [trim_cons _ _ (by simp), trim_cons _ _ (by simp)]
      rfl

/-! ## Children and what is between them -/

namespace Piece

/-- Two pieces that may stand next to each other: one of them is a text of the node itself. -/
def Apart (p q : Piece) : Prop :=
  p.isOwn = true ∨ q.isOwn = true

variable {text : String} {i : Nat} {m : Node} {last : Bool} {depth : Nat} {ps : List Piece}

@[simp] theorem children_own : (own text :: ps).filterMap child? = ps.filterMap child? := rfl

@[simp] theorem children_part :
    (part i m last depth :: ps).filterMap child? = (m, i) :: ps.filterMap child? := rfl

@[simp] theorem children_semicolon : (semicolon last).filterMap child? = [] := by
  cases last <;> rfl

@[simp] theorem children_separated (sep : String) (i : Nat) (ms : List Node) :
    (separated sep depth i ms).filterMap child? = ms.zipIdx i := by
  induction ms generalizing i with
  | nil => rfl
  | cons m ms ih => simp [separated, ih]

@[simp] theorem apart_own_left {q : Piece} : Apart (own text) q := .inl rfl

@[simp] theorem apart_own_right {p : Piece} : Apart p (own text) := .inr rfl

@[simp] theorem isChain_part_semicolon {closing : Bool} :
    (part i m last depth :: semicolon closing).IsChain Apart := by
  cases closing <;> simp [semicolon]

/-- Separated parts between brackets never meet. -/
theorem isChain_separated (sep closing : String) (i : Nat) (ms : List Node) :
    (part i m last depth :: (separated sep depth (i + 1) ms ++ [own closing])).IsChain Apart := by
  induction ms generalizing i m last with
  | nil => simp [separated]
  | cons m ms ih => simpa [separated] using ih (i + 1)

end Piece

/-- Every child of a node is printed once, in the order of the children. -/
theorem Node.children_pieces {n : Node} (h : n.Checked) (last : Bool) (depth : Nat) :
    (n.pieces last depth).filterMap Piece.child? = n.children.zipIdx := by
  cases n with
  | expr e =>
    cases e with
    | constant c => by_cases hc : c.value.datatype = .void <;> simp [pieces, hc, children]
    | binary id op l r =>
      obtain ⟨-, hl, hr⟩ : op.known = true ∧ l.Checked ∧ r.Checked := h
      simp [pieces, children, Expr.node?_of_checked hl, Expr.node?_of_checked hr]
    | invoke id f args => cases args <;> simp [pieces, children]
    | _ => rfl
  | stmt s =>
    cases s with
    | expression id v => cases v <;> simp [pieces, children]
    | declaration id t x v => cases v <;> simp [pieces, children]
    | block id ss => cases ss <;> simp [pieces, children]
    | undeclaration id x => simp [pieces, children]
    | _ => rfl

/-- Between the texts of two children stands a text of the node itself. -/
theorem Node.isChain_pieces (n : Node) (last : Bool) (depth : Nat) :
    (n.pieces last depth).IsChain Piece.Apart := by
  cases n with
  | expr e =>
    cases e with
    | constant c => by_cases hc : c.value.datatype = .void <;> simp [pieces, hc]
    | invoke id f args =>
      cases args with
      | nil => simp [pieces]
      | cons e es => simpa [pieces] using Piece.isChain_separated ", " ")" 1 (es.map expr)
    | _ => simp [pieces]
  | stmt s =>
    cases s with
    | expression id v =>
      cases v with
      | none => cases last <;> simp [pieces, Piece.semicolon]
      | some e => simp [pieces]
    | declaration id t x v => cases v <;> simp [pieces]
    | block id ss =>
      cases ss with
      | nil => simp [pieces]
      | cons s ss => simpa [pieces] using Piece.isChain_separated _ _ 0 (ss.map stmt)
    | _ => simp [pieces]

/-- A piece with a child is that part. -/
theorem Piece.eq_part_of_child? {p : Piece} {m : Node} {i : Nat} (h : p.child? = some (m, i)) :
    ∃ last depth, p = .part i m last depth := by
  cases p with
  | own => cases h
  | part j k last depth =>
    cases h
    exact ⟨last, depth, rfl⟩

variable {n m : Node} {i d depth : Nat} {l last : Bool} {front back : List Piece}

/-- Every child of a node is a piece of its text. -/
theorem Node.exists_part (h : n.Checked) (hm : n.children[i]? = some m) (last : Bool)
    (depth : Nat) : ∃ front l d back, n.pieces last depth = front ++ .part i m l d :: back := by
  have hmem : (m, i) ∈ (n.pieces last depth).filterMap Piece.child? := by
    rw [children_pieces h last depth, List.mem_zipIdx_iff_getElem?]
    exact hm
  obtain ⟨p, hp, hchild⟩ := List.mem_filterMap.1 hmem
  obtain ⟨l, d, rfl⟩ := Piece.eq_part_of_child? hchild
  obtain ⟨front, back, hsplit⟩ := List.append_of_mem hp
  exact ⟨front, l, d, back, hsplit⟩

/-- The pieces around the text of a child are texts of the node itself and of its other
children. -/
theorem Node.children_around (h : n.Checked)
    (hpieces : n.pieces last depth = front ++ .part i m l d :: back) :
    n.children[i]? = some m ∧
      ∀ p ∈ front ++ back, ∀ k j, p.child? = some (k, j) → j ≠ i ∧ n.children[j]? = some k := by
  have hchildren := children_pieces h last depth
  rw [hpieces, List.filterMap_append, Piece.children_part] at hchildren
  have hget : ∀ k j,
      (k, j) ∈ front.filterMap Piece.child? ++ (m, i) :: back.filterMap Piece.child? →
      n.children[j]? = some k := by
    intro k j hkj
    rw [hchildren] at hkj
    exact List.mem_zipIdx_iff_getElem?.1 hkj
  have hnumbers : i ∉ ((front ++ back).filterMap Piece.child?).map Prod.snd := by
    have hnodup : (n.children.zipIdx.map Prod.snd).Nodup := by
      rw [List.zipIdx_map_snd]
      exact List.nodup_range'
    rw [← hchildren, List.map_append, List.map_cons, List.nodup_middle, ← List.map_append,
      ← List.filterMap_append] at hnodup
    exact (List.nodup_cons.1 hnodup).1
  refine ⟨hget m i (by simp), ?_⟩
  intro p hp k j hj
  have hkj : (k, j) ∈ (front ++ back).filterMap Piece.child? := List.mem_filterMap.2 ⟨p, hp, hj⟩
  constructor
  · rintro rfl
    exact hnumbers (List.mem_map.2 ⟨(k, j), hkj, rfl⟩)
  · apply hget
    rw [List.filterMap_append, List.mem_append] at hkj
    rw [List.mem_append, List.mem_cons]
    rcases hkj with hkj | hkj
    · exact .inl hkj
    · exact .inr (.inr hkj)

/-- Next to the text of a child stands a text of the node itself. -/
theorem Node.own_around (hpieces : n.pieces last depth = front ++ .part i m l d :: back) :
    (∀ p ∈ front.getLast?, p.isOwn = true) ∧ ∀ p ∈ back.head?, p.isOwn = true := by
  have hchain := n.isChain_pieces last depth
  rw [hpieces, List.isChain_append, List.isChain_cons] at hchain
  obtain ⟨-, ⟨hright, -⟩, hleft⟩ := hchain
  constructor
  · intro p hp
    simpa [Piece.Apart, Piece.isOwn] using hleft p hp _ rfl
  · intro p hp
    simpa [Piece.Apart, Piece.isOwn] using hright p hp

end Stepwise
