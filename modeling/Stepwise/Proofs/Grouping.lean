import Stepwise.Proofs.Lexemes
import Stepwise.Proofs.Shape

/-!
# Proofs - What a printed expression leaves open

An expression is printed without parentheses, so its text does not say how the operands are
grouped: `a && b <= c` is the text of two expressions.  Nothing else is left open.  Expressions
have the same text exactly if they are the same once all links are grouped to the right; and if
both are grouped as C groups a text without parentheses, then the same text is that of the same
expression.

For both, the lexemes of an expression are marked with the number of brackets around them.  A way
of grouping says which of the outermost links is the one that was put last; the marks on both sides
of it then belong to its two operands.

Main definitions:

- `Expr.rightward`: an expression with all its links grouped to the right.
- `Expr.Grouped`: expressions grouped as C groups their text.
- `Expr.nested`: the lexemes with the number of brackets around them.

Main results:

- `Unambiguous.shape_eq`: where a way of grouping tells the last link, the lexemes determine the
  expression.
- `source_eq_iff_rightward`: what the text of an expression determines.
-/

namespace Stepwise

/-! ## Splitting a list at a mark -/

section Split

variable {α : Type} {p : α → Prop} {a a' b b' : List α} {x x' : α}

/-- Two ways to split a list at its first mark are the same. -/
theorem append_cons_inj_first (ha : ∀ y ∈ a, ¬p y) (ha' : ∀ y ∈ a', ¬p y) (hx : p x) (hx' : p x')
    (h : a ++ x :: b = a' ++ x' :: b') : a = a' ∧ x = x' ∧ b = b' := by
  induction a generalizing a' with
  | nil =>
    cases a' with
    | nil =>
      obtain ⟨hx, hb⟩ := List.cons.inj h
      exact ⟨rfl, hx, hb⟩
    | cons y ys =>
      obtain ⟨rfl, -⟩ := List.cons.inj h
      exact absurd hx (ha' x (List.mem_cons_self ..))
  | cons y ys ih =>
    cases a' with
    | nil =>
      obtain ⟨rfl, -⟩ := List.cons.inj h
      exact absurd hx' (ha y (List.mem_cons_self ..))
    | cons z zs =>
      obtain ⟨rfl, htail⟩ := List.cons.inj h
      obtain ⟨rfl, hrest⟩ := ih (fun w hw => ha w (List.mem_cons_of_mem _ hw))
        (fun w hw => ha' w (List.mem_cons_of_mem _ hw)) htail
      exact ⟨rfl, hrest⟩

/-- Two ways to split a list at its last mark are the same. -/
theorem append_cons_inj_last (hb : ∀ y ∈ b, ¬p y) (hb' : ∀ y ∈ b', ¬p y) (hx : p x) (hx' : p x')
    (h : a ++ x :: b = a' ++ x' :: b') : a = a' ∧ x = x' ∧ b = b' := by
  have hreverse := congrArg List.reverse h
  simp only [List.reverse_append, List.reverse_cons, List.append_assoc, List.singleton_append]
    at hreverse
  obtain ⟨hb, hx, ha⟩ := append_cons_inj_first (fun y hy => hb y (List.mem_reverse.1 hy))
    (fun y hy => hb' y (List.mem_reverse.1 hy)) hx hx' hreverse
  exact ⟨List.reverse_inj.1 ha, hx, List.reverse_inj.1 hb⟩

end Split

/-! ## Lexemes and the brackets around them -/

/-- Lexemes with the number of brackets around them, inside of some. -/
def Lexeme.nest : Nat → List Lexeme → List (Nat × Lexeme)
  | _, [] => []
  | d, .opening :: ts => (d, .opening) :: nest (d + 1) ts
  | d, .closing :: ts => (d - 1, .closing) :: nest (d - 1) ts
  | d, t :: ts => (d, t) :: nest d ts

namespace Expr

mutual

/-- The lexemes of an expression with the number of brackets around them, inside of some. -/
def nested (d : Nat) : Expr → List (Nat × Lexeme)
  | .identifier i => [(d, .name i.name)]
  | .constant c => [(d, .value c.value)]
  | .binary _ op l r => l.nested d ++ (d, .link (.operator op)) :: r.nested d
  | .assign _ x v => (d, .name x.name) :: (d, .link .assign) :: v.nested d
  | .addAssign _ x v => (d, .name x.name) :: (d, .link .addAssign) :: v.nested d
  | .increment _ x => [(d, .name x.name), (d, .plusPlus)]
  | .invoke _ f args =>
    (d, .name f.name) :: (d, .opening) :: (nestedArguments (d + 1) args ++ [(d, .closing)])
  | .hole _ => []

/-- The lexemes of the arguments of a call. -/
def nestedArguments (d : Nat) : List Expr → List (Nat × Lexeme)
  | [] => []
  | e :: es => e.nested d ++ nestedMore d es

/-- The lexemes of further arguments, each after a comma. -/
def nestedMore (d : Nat) : List Expr → List (Nat × Lexeme)
  | [] => []
  | e :: es => (d, .comma) :: (e.nested d ++ nestedMore d es)

end

/-- The lexemes of further arguments are nested as those of each of them are. -/
theorem nest_moreLexemes_append {d : Nat} {es : List Expr}
    (hes : ∀ e ∈ es, ∀ d rest,
      Lexeme.nest d (e.lexemes ++ rest) = e.nested d ++ Lexeme.nest d rest) (rest : List Lexeme) :
    Lexeme.nest d (moreLexemes es ++ rest) = nestedMore d es ++ Lexeme.nest d rest := by
  induction es with
  | nil => rfl
  | cons e es ih =>
    obtain ⟨he, hes⟩ := List.forall_mem_cons.1 hes
    simp [moreLexemes, nestedMore, Lexeme.nest, he, ih hes]

/-- The brackets of an expression are closed again, so that what follows has as many around it as
what comes before. -/
theorem nest_lexemes_append (e : Expr) (d : Nat) (rest : List Lexeme) :
    Lexeme.nest d (e.lexemes ++ rest) = e.nested d ++ Lexeme.nest d rest := by
  induction e using Expr.induct generalizing d rest with
  | identifier i | constant c | increment id x | hole v => rfl
  | binary id op l r ihl ihr => simp [lexemes, nested, Lexeme.nest, ihl, ihr]
  | assign id x v ih | addAssign id x v ih => simp [lexemes, nested, Lexeme.nest, ih]
  | invoke id f args ih =>
    cases args with
    | nil => simp [lexemes, argumentLexemes, nested, nestedArguments, Lexeme.nest]
    | cons e es =>
      obtain ⟨he, hes⟩ := List.forall_mem_cons.1 ih
      simp [lexemes, argumentLexemes, nested, nestedArguments, Lexeme.nest, he,
        nest_moreLexemes_append hes]

/-- Expressions with the same lexemes are nested alike. -/
theorem nested_eq_of_lexemes_eq {e e' : Expr} (h : e.lexemes = e'.lexemes) (d : Nat) :
    e.nested d = e'.nested d := by
  have hnest := e.nest_lexemes_append d []
  rw [h, nest_lexemes_append] at hnest
  simpa [Lexeme.nest] using hnest.symm

/-- What is nested among further arguments is a comma or in one of them. -/
theorem mem_nestedMore {d : Nat} {es : List Expr} {p : Nat × Lexeme} (h : p ∈ nestedMore d es) :
    p = (d, .comma) ∨ ∃ e ∈ es, p ∈ e.nested d := by
  induction es with
  | nil => cases h
  | cons e es ih =>
    rw [nestedMore, List.mem_cons, List.mem_append] at h
    rcases h with h | h | h
    · exact .inl h
    · exact .inr ⟨e, List.mem_cons_self .., h⟩
    · rcases ih h with h | ⟨e', he', h⟩
      · exact .inl h
      · exact .inr ⟨e', List.mem_cons_of_mem _ he', h⟩

/-- What is nested among arguments is a comma or in one of them. -/
theorem mem_nestedArguments {d : Nat} {es : List Expr} {p : Nat × Lexeme}
    (h : p ∈ nestedArguments d es) : p = (d, .comma) ∨ ∃ e ∈ es, p ∈ e.nested d := by
  cases es with
  | nil => cases h
  | cons e es =>
    apply mem_nestedMore
    rw [nestedMore]
    exact List.mem_cons_of_mem _ h

/-- A comma of an expression stands in brackets of the expression. -/
theorem depth_of_mem_nested {e : Expr} {d : Nat} {p : Nat × Lexeme} (h : p ∈ e.nested d) :
    d < p.1 ∨ p.1 = d ∧ p.2 ≠ .comma := by
  induction e using Expr.induct generalizing d with
  | identifier i | constant c =>
    cases List.mem_singleton.1 h
    exact .inr ⟨rfl, by simp⟩
  | binary id op l r ihl ihr =>
    rw [nested, List.mem_append, List.mem_cons] at h
    rcases h with h | rfl | h
    · exact ihl h
    · exact .inr ⟨rfl, by simp⟩
    · exact ihr h
  | assign id x v ih | addAssign id x v ih =>
    rw [nested, List.mem_cons, List.mem_cons] at h
    rcases h with rfl | rfl | h
    · exact .inr ⟨rfl, by simp⟩
    · exact .inr ⟨rfl, by simp⟩
    · exact ih h
  | increment id x =>
    rw [nested, List.mem_cons, List.mem_singleton] at h
    rcases h with rfl | rfl
    · exact .inr ⟨rfl, by simp⟩
    · exact .inr ⟨rfl, by simp⟩
  | invoke id f args ih =>
    rw [nested, List.mem_cons, List.mem_cons, List.mem_append, List.mem_singleton] at h
    rcases h with rfl | rfl | h | rfl
    · exact .inr ⟨rfl, by simp⟩
    · exact .inr ⟨rfl, by simp⟩
    · left
      rcases mem_nestedArguments h with rfl | ⟨e, he, h⟩
      · exact Nat.lt_succ_self d
      · have := ih e he h
        omega
    · exact .inr ⟨rfl, by simp⟩
  | hole v => cases h

/-! ## The last link of an expression -/

/-- Whether an expression is an operand without a link of its own. -/
def isOperand : Expr → Bool
  | .binary .. => false
  | .assign .. => false
  | .addAssign .. => false
  | _ => true

/-- The link that joins the two halves of an expression, with the lexemes of the halves. -/
def halves? (d : Nat) : Expr → Option (List (Nat × Lexeme) × Link × List (Nat × Lexeme))
  | .binary _ op l r => some (l.nested d, .operator op, r.nested d)
  | .assign _ x v => some ([(d, .name x.name)], .assign, v.nested d)
  | .addAssign _ x v => some ([(d, .name x.name)], .addAssign, v.nested d)
  | _ => none

variable {e e' : Expr} {d : Nat} {k k' : Link} {a a' b b' : List (Nat × Lexeme)}

/-- The halves of an expression stand on either side of their link. -/
theorem nested_of_halves? (h : e.halves? d = some (a, k, b)) :
    e.nested d = a ++ (d, .link k) :: b := by
  cases e <;> cases h <;> rfl

/-- The outermost lexemes of an operand are no links. -/
theorem not_mem_of_isOperand (h : e.isOperand = true) : (d, .link k) ∉ e.nested d := by
  intro hmem
  cases e with
  | binary | assign | addAssign => cases h
  | identifier | constant => cases List.mem_singleton.1 hmem
  | increment id x => simp [nested] at hmem
  | invoke id f args =>
    simp only [nested, List.mem_cons, List.mem_append, Prod.mk.injEq, reduceCtorEq, and_false,
      List.not_mem_nil, or_false, false_or] at hmem
    rcases mem_nestedArguments hmem with h | ⟨e, he, h⟩
    · cases h
    · have := depth_of_mem_nested h
      simp at this
  | hole v => cases hmem

/-- Expressions with the same lexemes are both operands, or both have a last link. -/
theorem isOperand_congr (h : e.nested d = e'.nested d) : e.isOperand = e'.isOperand := by
  have hlink : ∀ e : Expr, e.isOperand = true ↔ ∀ k, (d, .link k) ∉ e.nested d := by
    intro e
    refine ⟨fun h k => not_mem_of_isOperand h, fun h => ?_⟩
    cases e with
    | binary id op l r => exact absurd (by simp [nested]) (h (.operator op))
    | assign id x v => exact absurd (by simp [nested]) (h .assign)
    | addAssign id x v => exact absurd (by simp [nested]) (h .addAssign)
    | _ => rfl
  rw [Bool.eq_iff_iff, hlink, hlink, h]

/-- Expressions with the same lexemes have the same halves if both are split at the first of the
outermost links. -/
theorem halves_eq_of_first (h : e.nested d = e'.nested d) (hhalves : e.halves? d = some (a, k, b))
    (hhalves' : e'.halves? d = some (a', k', b')) (ha : ∀ k, (d, .link k) ∉ a)
    (ha' : ∀ k, (d, .link k) ∉ a') : (a, k, b) = (a', k', b') := by
  rw [nested_of_halves? hhalves, nested_of_halves? hhalves'] at h
  have hno : ∀ {a : List (Nat × Lexeme)}, (∀ k, (d, .link k) ∉ a) →
      ∀ p ∈ a, ¬∃ k, p = (d, .link k) := by
    rintro a ha p hp ⟨k, rfl⟩
    exact ha k hp
  obtain ⟨rfl, hk, rfl⟩ := append_cons_inj_first (hno ha) (hno ha') ⟨k, rfl⟩ ⟨k', rfl⟩ h
  cases hk
  rfl

/-- Expressions with the same lexemes have the same halves if both are split at the last of the
outermost links of one kind. -/
theorem halves_eq_of_last (h : e.nested d = e'.nested d) (hhalves : e.halves? d = some (a, k, b))
    (hhalves' : e'.halves? d = some (a', k, b')) (hb : (d, .link k) ∉ b)
    (hb' : (d, .link k) ∉ b') : (a, k, b) = (a', k, b') := by
  rw [nested_of_halves? hhalves, nested_of_halves? hhalves'] at h
  obtain ⟨rfl, -, rfl⟩ := append_cons_inj_last (p := fun q => q = (d, Lexeme.link k))
    (fun q hq heq => hb (heq ▸ hq)) (fun q hq heq => hb' (heq ▸ hq)) rfl rfl h
  rfl

end Expr

/-! ## Ways of grouping -/

/-- A class of checked expressions in which the lexemes tell the last link. -/
structure Unambiguous (G : Expr → Prop) : Prop where
  checked : ∀ {e}, G e → e.Checked
  binary : ∀ {id op l r}, G (.binary id op l r) → G l ∧ G r
  assign : ∀ {id x v}, G (.assign id x v) → G v
  addAssign : ∀ {id x v}, G (.addAssign id x v) → G v
  invoke : ∀ {id f args}, G (.invoke id f args) → ∀ e ∈ args, G e
  halves : ∀ {e e' d h h'}, G e → G e' → e.nested d = e'.nested d → e.halves? d = some h →
    e'.halves? d = some h' → h = h'

namespace Unambiguous

variable {G : Expr → Prop} {e e' : Expr} {d : Nat}

/-- The comma after an argument is where the argument ends. -/
theorem nested_eq_of_append {es es' : List Expr}
    (h : e.nested d ++ Expr.nestedMore d es = e'.nested d ++ Expr.nestedMore d es') :
    e.nested d = e'.nested d ∧ Expr.nestedMore d es = Expr.nestedMore d es' := by
  have hcomma : ∀ e : Expr, ∀ p ∈ e.nested d, ¬p = (d, .comma) := by
    rintro e p hp rfl
    have := Expr.depth_of_mem_nested hp
    simp at this
  cases es with
  | nil =>
    cases es' with
    | nil => simpa [Expr.nestedMore] using h
    | cons f fs =>
      have hmem : (d, .comma) ∈ e.nested d := by
        rw [Expr.nestedMore, List.append_nil] at h
        simp [h, Expr.nestedMore]
      exact absurd rfl (hcomma e _ hmem)
  | cons f fs =>
    cases es' with
    | nil =>
      have hmem : (d, .comma) ∈ e'.nested d := by
        rw [Expr.nestedMore, Expr.nestedMore, List.append_nil] at h
        simp [← h]
      exact absurd rfl (hcomma e' _ hmem)
    | cons f' fs' =>
      obtain ⟨he, -, hrest⟩ := append_cons_inj_first (hcomma e) (hcomma e') rfl rfl h
      exact ⟨he, by rw [Expr.nestedMore, Expr.nestedMore, hrest]⟩

/-- A checked expression has lexemes. -/
theorem nested_ne_nil (he : e.Checked) : e.nested d ≠ [] := by
  cases e <;> simp_all [Expr.nested]

/-- The lexemes of further arguments determine them if those of each one do. -/
theorem shapes_eq_of_nestedMore {es es' : List Expr} (hes : ∀ e ∈ es, G e) (hes' : ∀ e ∈ es', G e)
    (ih : ∀ e ∈ es, ∀ e' d, G e → G e' → e.nested d = e'.nested d → e.shape = e'.shape)
    (h : Expr.nestedMore d es = Expr.nestedMore d es') :
    es.map Expr.shape = es'.map Expr.shape := by
  induction es generalizing es' with
  | nil =>
    cases es' with
    | nil => rfl
    | cons e' es' => cases h
  | cons e es ihes =>
    cases es' with
    | nil => cases h
    | cons e' es' =>
      obtain ⟨he, htail⟩ := List.forall_mem_cons.1 hes
      obtain ⟨he', htail'⟩ := List.forall_mem_cons.1 hes'
      obtain ⟨ihe, ihtail⟩ := List.forall_mem_cons.1 ih
      obtain ⟨hfirst, hmore⟩ := nested_eq_of_append (List.cons.inj h).2
      rw [List.map_cons, List.map_cons, ihe e' d he he' hfirst, ihes htail htail' ihtail hmore]

/-- Arguments that are nested alike have the same shapes, if expressions have. -/
theorem shapes_eq_of_nestedArguments (hG : Unambiguous G) {es es' : List Expr}
    (hes : ∀ e ∈ es, G e) (hes' : ∀ e ∈ es', G e)
    (ih : ∀ e ∈ es, ∀ e' d, G e → G e' → e.nested d = e'.nested d → e.shape = e'.shape)
    (h : Expr.nestedArguments d es = Expr.nestedArguments d es') :
    es.map Expr.shape = es'.map Expr.shape := by
  cases es with
  | nil =>
    cases es' with
    | nil => rfl
    | cons e' es' =>
      have hnil := (List.append_eq_nil_iff.1 h.symm).1
      exact absurd hnil (nested_ne_nil (hG.checked (hes' e' (List.mem_cons_self ..))))
  | cons e es =>
    cases es' with
    | nil =>
      have hnil := (List.append_eq_nil_iff.1 h).1
      exact absurd hnil (nested_ne_nil (hG.checked (hes e (List.mem_cons_self ..))))
    | cons e' es' =>
      apply shapes_eq_of_nestedMore hes hes' ih
      rw [Expr.nestedMore, Expr.nestedMore]
      exact congrArg (List.cons (d, .comma)) h

/-- Where a way of grouping tells the last link, the lexemes determine the expression: those on the
two sides of the last link are the lexemes of its operands, and those of a call are split at the
commas that stand in no further brackets. -/
theorem shape_eq (hG : Unambiguous G) (he : G e) (he' : G e') (h : e.nested d = e'.nested d) :
    e.shape = e'.shape := by
  induction e using Expr.induct generalizing e' d with
  | binary id op l r ihl ihr =>
    cases e' with
    | binary id' op' l' r' =>
      have hhalves := hG.halves he he' h rfl rfl
      simp only [Prod.mk.injEq, Link.operator.injEq] at hhalves
      obtain ⟨hl, rfl, hr⟩ := hhalves
      obtain ⟨hel, her⟩ := hG.binary he
      obtain ⟨hel', her'⟩ := hG.binary he'
      rw [Expr.shape, Expr.shape, ihl hel hel' hl, ihr her her' hr]
    | assign | addAssign => simpa using hG.halves he he' h rfl rfl
    | _ => cases Expr.isOperand_congr h
  | assign id x v ih =>
    cases e' with
    | assign id' x' v' =>
      have hhalves := hG.halves he he' h rfl rfl
      simp only [Prod.mk.injEq, List.cons.injEq, Lexeme.name.injEq, true_and, and_true]
        at hhalves
      obtain ⟨hx, hv⟩ := hhalves
      rw [Expr.shape, Expr.shape, ih (hG.assign he) (hG.assign he') hv, Identifier.shape,
        Identifier.shape, hx]
    | binary | addAssign => simpa using hG.halves he he' h rfl rfl
    | _ => cases Expr.isOperand_congr h
  | addAssign id x v ih =>
    cases e' with
    | addAssign id' x' v' =>
      have hhalves := hG.halves he he' h rfl rfl
      simp only [Prod.mk.injEq, List.cons.injEq, Lexeme.name.injEq, true_and, and_true]
        at hhalves
      obtain ⟨hx, hv⟩ := hhalves
      rw [Expr.shape, Expr.shape, ih (hG.addAssign he) (hG.addAssign he') hv, Identifier.shape,
        Identifier.shape, hx]
    | binary | assign => simpa using hG.halves he he' h rfl rfl
    | _ => cases Expr.isOperand_congr h
  | identifier i | constant c | increment id x =>
    cases e' with
    | binary | assign | addAssign => cases Expr.isOperand_congr h
    | _ => simp_all [Expr.nested]
  | invoke id f args ih =>
    cases e' with
    | invoke id' f' args' =>
      simp only [Expr.nested, List.cons.injEq, Prod.mk.injEq, Lexeme.name.injEq, true_and,
        List.append_cancel_right_eq] at h
      obtain ⟨hf, hargs⟩ := h
      have hshapes := shapes_eq_of_nestedArguments hG (hG.invoke he) (hG.invoke he')
        (fun e hmem e' d he he' h => ih e hmem he he' h) hargs
      rw [Expr.shape, Expr.shape, Expr.shapes_eq_map, Expr.shapes_eq_map, hshapes,
        Identifier.shape, Identifier.shape, hf]
    | binary | assign | addAssign => cases Expr.isOperand_congr h
    | _ => simp [Expr.nested] at h
  | hole v => exact (hG.checked he).elim

end Unambiguous

/-! ## Grouping to the right -/

namespace Expr

/-- Put an operand after the last operand of an expression. -/
def extend : Expr → NodeId → BinaryOp → Expr → Expr
  | .binary id' op' l m, id, op, r => .binary id' op' l (m.extend id op r)
  | .assign id' x v, id, op, r => .assign id' x (v.extend id op r)
  | .addAssign id' x v, id, op, r => .addAssign id' x (v.extend id op r)
  | e, id, op, r => .binary id op e r

mutual

/-- An expression with all its links grouped to the right. -/
def rightward : Expr → Expr
  | .binary id op l r => l.rightward.extend id op r.rightward
  | .assign id x v => .assign id x v.rightward
  | .addAssign id x v => .addAssign id x v.rightward
  | .invoke id f args => .invoke id f (rightwards args)
  | e => e

/-- Expressions with all their links grouped to the right. -/
def rightwards : List Expr → List Expr
  | [] => []
  | e :: es => e.rightward :: rightwards es

end

mutual

/-- All links are grouped to the right: each one has an operand without links on its left. -/
def Rightward : Expr → Prop
  | .binary _ _ l r => l.isOperand = true ∧ l.Rightward ∧ r.Rightward
  | .assign _ _ v => v.Rightward
  | .addAssign _ _ v => v.Rightward
  | .invoke _ _ args => AllRightward args
  | _ => True

/-- All links of several expressions are grouped to the right. -/
def AllRightward : List Expr → Prop
  | [] => True
  | e :: es => e.Rightward ∧ AllRightward es

end

/-- Regrouping a list regroups each of its members. -/
theorem rightwards_eq_map (es : List Expr) : rightwards es = es.map rightward := by
  induction es with
  | nil => rfl
  | cons e es ih => rw [rightwards, List.map_cons, ih]

/-- A list is grouped to the right when each of its members is. -/
theorem allRightward_iff {es : List Expr} : AllRightward es ↔ ∀ e ∈ es, e.Rightward := by
  induction es with
  | nil => simp [AllRightward]
  | cons e es ih => simp [AllRightward, ih]

/-- Arguments may be changed in a way that keeps the lexemes of each one. -/
theorem argumentLexemes_map {f : Expr → Expr} {es : List Expr}
    (hf : ∀ e ∈ es, (f e).lexemes = e.lexemes) :
    argumentLexemes (es.map f) = argumentLexemes es := by
  have hmore : ∀ es : List Expr, (∀ e ∈ es, (f e).lexemes = e.lexemes) →
      moreLexemes (es.map f) = moreLexemes es := by
    intro es hes
    induction es with
    | nil => rfl
    | cons e es ih =>
      obtain ⟨he, hes⟩ := List.forall_mem_cons.1 hes
      rw [List.map_cons, moreLexemes, moreLexemes, he, ih hes]
  cases es with
  | nil => rfl
  | cons e es =>
    obtain ⟨he, hes⟩ := List.forall_mem_cons.1 hf
    rw [List.map_cons, argumentLexemes, argumentLexemes, he, hmore es hes]

/-- Identities do not show in the lexemes. -/
theorem lexemes_shape (e : Expr) : e.shape.lexemes = e.lexemes := by
  induction e using Expr.induct with
  | identifier i | constant c | increment id x | hole v => rfl
  | binary id op l r ihl ihr => rw [shape, lexemes, lexemes, ihl, ihr]
  | assign id x v ih | addAssign id x v ih =>
    rw [shape, lexemes, lexemes, ih]
    rfl
  | invoke id f args ih =>
    rw [shape, lexemes, lexemes, shapes_eq_map, argumentLexemes_map ih]
    rfl

section Extend

variable {id : NodeId} {op : BinaryOp} {r e : Expr}

/-- Extending an expression puts the operator and the operand after its lexemes. -/
theorem lexemes_extend :
    (e.extend id op r).lexemes = e.lexemes ++ .link (.operator op) :: r.lexemes := by
  induction e using Expr.induct with
  | binary id' op' l m _ ih =>
    rw [extend, lexemes, lexemes, ih, List.append_assoc, List.cons_append]
  | assign id' x v ih | addAssign id' x v ih =>
    rw [extend, lexemes, lexemes, ih]
    rfl
  | _ => rfl

/-- Extending a checked expression gives a checked one. -/
theorem Checked.extend (he : e.Checked) (hop : op.known = true) (hr : r.Checked) :
    (e.extend id op r).Checked := by
  induction e using Expr.induct with
  | binary id' op' l m _ ih => exact ⟨he.1, he.2.1, ih he.2.2⟩
  | assign id' x v ih | addAssign id' x v ih => exact ⟨he.1, ih he.2⟩
  | _ => exact ⟨hop, he, hr⟩

/-- Extending an expression that is grouped to the right keeps it so. -/
theorem Rightward.extend (he : e.Rightward) (hr : r.Rightward) :
    (e.extend id op r).Rightward := by
  induction e using Expr.induct with
  | binary id' op' l m _ ih => exact ⟨he.1, he.2.1, ih he.2.2⟩
  | assign id' x v ih | addAssign id' x v ih => exact ih he
  | _ => exact ⟨rfl, he, hr⟩

end Extend

/-- Grouping to the right keeps the lexemes. -/
theorem lexemes_rightward (e : Expr) : e.rightward.lexemes = e.lexemes := by
  induction e using Expr.induct with
  | binary id op l r ihl ihr => rw [rightward, lexemes_extend, ihl, ihr, lexemes]
  | assign id x v ih | addAssign id x v ih => rw [rightward, lexemes, lexemes, ih]
  | invoke id f args ih =>
    rw [rightward, lexemes, lexemes, rightwards_eq_map, argumentLexemes_map ih]
  | _ => rfl

/-- Regrouping a checked expression gives a checked one. -/
theorem Checked.rightward {e : Expr} (he : e.Checked) : e.rightward.Checked := by
  induction e using Expr.induct with
  | binary id op l r ihl ihr => exact (ihl he.2.1).extend he.1 (ihr he.2.2)
  | assign id x v ih | addAssign id x v ih => exact ⟨he.1, ih he.2⟩
  | invoke id f args ih =>
    refine ⟨he.1, ?_⟩
    rw [rightwards_eq_map, allChecked_iff]
    intro e' he'
    obtain ⟨e, hmem, rfl⟩ := List.mem_map.1 he'
    exact ih e hmem (allChecked_iff.1 he.2 e hmem)
  | _ => exact he

/-- Regrouping groups to the right. -/
theorem rightward_rightward (e : Expr) : e.rightward.Rightward := by
  induction e using Expr.induct with
  | binary id op l r ihl ihr => exact ihl.extend ihr
  | assign id x v ih | addAssign id x v ih => exact ih
  | invoke id f args ih =>
    rw [rightward, Rightward, rightwards_eq_map, allRightward_iff]
    intro e' he'
    obtain ⟨e, hmem, rfl⟩ := List.mem_map.1 he'
    exact ih e hmem
  | _ => trivial

/-- Where all links are grouped to the right, the last link that was put is the first one. -/
theorem unambiguous_rightward : Unambiguous fun e => e.Checked ∧ e.Rightward where
  checked h := h.1
  binary h := ⟨⟨h.1.2.1, h.2.2.1⟩, h.1.2.2, h.2.2.2⟩
  assign h := ⟨h.1.2, h.2⟩
  addAssign h := ⟨h.1.2, h.2⟩
  invoke h e he := ⟨allChecked_iff.1 h.1.2 e he, allRightward_iff.1 h.2 e he⟩
  halves := by
    have hleft : ∀ {e : Expr} {d a k b}, e.Rightward → e.halves? d = some (a, k, b) →
        ∀ k, (d, .link k) ∉ a := by
      intro e d a k b he hhalves k' hmem
      cases e with
      | binary id op l r =>
        cases hhalves
        exact not_mem_of_isOperand he.1 hmem
      | assign | addAssign =>
        cases hhalves
        cases List.mem_singleton.1 hmem
      | _ => cases hhalves
    intro e e' d h h' he he' hnested hhalves hhalves'
    exact halves_eq_of_first hnested hhalves hhalves' (hleft he.2 hhalves) (hleft he'.2 hhalves')

/-! ## Grouping as in C -/

end Expr

/-- How tightly a link binds. -/
def Link.level : Link → Nat
  | assign => 0
  | addAssign => 0
  | operator .and => 1
  | operator .eq => 2
  | operator .le => 3
  | operator (.other _) => 4

namespace Expr

/-- How tightly the last link of an expression binds; an operand is a unit. -/
def level : Expr → Nat
  | .binary _ op _ _ => (Link.operator op).level
  | .assign .. => Link.assign.level
  | .addAssign .. => Link.addAssign.level
  | _ => 4

mutual

/-- Expressions grouped as C groups their text: what binds more tightly is grouped first, equal
operators are grouped to the left, and assignments to the right. -/
def Grouped : Expr → Prop
  | .binary _ op l r => (Link.operator op).level ≤ l.level ∧ (Link.operator op).level < r.level ∧
      l.Grouped ∧ r.Grouped
  | .assign _ _ v => v.Grouped
  | .addAssign _ _ v => v.Grouped
  | .invoke _ _ args => AllGrouped args
  | _ => True

/-- Several expressions are grouped as C groups their texts. -/
def AllGrouped : List Expr → Prop
  | [] => True
  | e :: es => e.Grouped ∧ AllGrouped es

end

/-- A list is grouped when each of its members is. -/
theorem allGrouped_iff {es : List Expr} : AllGrouped es ↔ ∀ e ∈ es, e.Grouped := by
  induction es with
  | nil => simp [AllGrouped]
  | cons e es ih => simp [AllGrouped, ih]

/-- The outermost links of an expression bind at least as tightly as its last one. -/
theorem Grouped.level_le {e : Expr} {d : Nat} {k : Link} (he : e.Grouped)
    (h : (d, .link k) ∈ e.nested d) : e.level ≤ k.level := by
  induction e using Expr.induct with
  | binary id op l r ihl ihr =>
    rw [nested, List.mem_append, List.mem_cons] at h
    rcases h with h | h | h
    · exact he.1.trans (ihl he.2.2.1 h)
    · cases h
      exact Nat.le_refl _
    · exact he.2.1.le.trans (ihr he.2.2.2 h)
  | assign id x v ih | addAssign id x v ih => exact Nat.zero_le _
  | identifier | constant | increment | invoke | hole =>
    exact absurd h (not_mem_of_isOperand rfl)

/-- The level of an expression is that of the link between its halves. -/
theorem level_of_halves? {e : Expr} {d : Nat} {k : Link} {a b : List (Nat × Lexeme)}
    (h : e.halves? d = some (a, k, b)) : e.level = k.level := by
  cases e <;> cases h <;> rfl

/-- A known operator binds more tightly than an assignment. -/
theorem level_pos {op : BinaryOp} (h : op.known = true) : 0 < (Link.operator op).level := by
  cases op with
  | other code => cases h
  | _ => decide

/-- Known operators of one level are the same. -/
theorem eq_of_level_eq {op op' : BinaryOp} (h : op.known = true) (h' : op'.known = true)
    (hlevel : (Link.operator op).level = (Link.operator op').level) : op = op' := by
  cases op <;> cases op' <;> simp_all [BinaryOp.known, Link.level]

/-- Where expressions are grouped as in C, the last link is among the outermost links that bind
least: it is the first of them if they assign, and else the last. -/
theorem unambiguous_grouped : Unambiguous fun e => e.Checked ∧ e.Grouped where
  checked h := h.1
  binary h := ⟨⟨h.1.2.1, h.2.2.2.1⟩, h.1.2.2, h.2.2.2.2⟩
  assign h := ⟨h.1.2, h.2⟩
  addAssign h := ⟨h.1.2, h.2⟩
  invoke h e he := ⟨allChecked_iff.1 h.1.2 e he, allGrouped_iff.1 h.2 e he⟩
  halves := by
    have hle : ∀ {e e' : Expr} {d a k b}, e'.Grouped → e.nested d = e'.nested d →
        e.halves? d = some (a, k, b) → e'.level ≤ k.level := by
      intro e e' d a k b he' hnested hhalves
      apply he'.level_le (d := d)
      rw [← hnested, nested_of_halves? hhalves]
      simp
    intro e e' d h h' he he' hnested hhalves hhalves'
    obtain ⟨a, k, b⟩ := h
    obtain ⟨a', k', b'⟩ := h'
    have hlevel : k.level = k'.level := by
      have h₁ := hle he'.2 hnested hhalves
      have h₂ := hle he.2 hnested.symm hhalves'
      rw [level_of_halves? hhalves] at h₂
      rw [level_of_halves? hhalves'] at h₁
      omega
    cases e with
    | binary id op l r =>
      cases hhalves
      cases e' with
      | binary id' op' l' r' =>
        cases hhalves'
        obtain rfl := eq_of_level_eq he.1.1 he'.1.1 hlevel
        refine halves_eq_of_last hnested rfl rfl (fun hmem => ?_) fun hmem => ?_
        · exact absurd (he.2.2.2.2.level_le hmem) (Nat.not_le.2 he.2.2.1)
        · exact absurd (he'.2.2.2.2.level_le hmem) (Nat.not_le.2 he'.2.2.1)
      | assign | addAssign =>
        cases hhalves'
        exact absurd hlevel (level_pos he.1.1).ne'
      | _ => cases hhalves'
    | assign id x v | addAssign id x v =>
      cases hhalves
      cases e' with
      | binary id' op' l' r' =>
        cases hhalves'
        exact absurd hlevel (level_pos he'.1.1).ne
      | assign | addAssign =>
        cases hhalves'
        exact halves_eq_of_first hnested rfl rfl (by simp) (by simp)
      | _ => cases hhalves'
    | _ => cases hhalves

end Expr

/-! ## What a text determines -/

/-- Two expressions that can be read have the same text exactly if they are structurally equal once
all links are grouped to the right; and if both are grouped as C groups a text without parentheses,
then they are structurally equal as they are. -/
theorem source_eq_iff_rightward {e e' : Expr} (he : e.Readable) (he' : e'.Readable) :
    ((Node.expr e).source = (Node.expr e').source ↔ e.rightward.shape = e'.rightward.shape) ∧
      (e.Grouped → e'.Grouped → (Node.expr e).source = (Node.expr e').source →
        e.shape = e'.shape) := by
  rw [Expr.source_eq_iff_lexemes_eq he he']
  refine ⟨⟨fun h => ?_, fun h => ?_⟩, fun hgrouped hgrouped' h => ?_⟩
  · have hright : e.rightward.lexemes = e'.rightward.lexemes := by
      rw [Expr.lexemes_rightward, Expr.lexemes_rightward, h]
    exact Expr.unambiguous_rightward.shape_eq ⟨he.checked.rightward, e.rightward_rightward⟩
      ⟨he'.checked.rightward, e'.rightward_rightward⟩ (Expr.nested_eq_of_lexemes_eq hright 0)
  · rw [← Expr.lexemes_rightward e, ← Expr.lexemes_shape, h, Expr.lexemes_shape,
      Expr.lexemes_rightward]
  · exact Expr.unambiguous_grouped.shape_eq ⟨he.checked, hgrouped⟩ ⟨he'.checked, hgrouped'⟩
      (Expr.nested_eq_of_lexemes_eq h 0)

/-- A call with a text that looks like links. -/
def quotedCall : Expr := .invoke 6 ⟨7, "f"⟩ [.constant ⟨8, .string "a && b"⟩]

/-- A conjunction of a name and a comparison. -/
def comparedFirst : Expr :=
  .binary 1 .and (.identifier ⟨2, "a"⟩) (.binary 3 .le (.identifier ⟨4, "b"⟩) quotedCall)

/-- A comparison of a conjunction with a call. -/
def conjoinedFirst : Expr :=
  .binary 1 .le (.binary 3 .and (.identifier ⟨2, "a"⟩) (.identifier ⟨4, "b"⟩)) quotedCall

/-- The letters of the example are names. -/
theorem isName_letter {s : String} (h : s ∈ ["a", "b", "f"]) : IsName s := by
  simp only [List.mem_cons, List.not_mem_nil, or_false] at h
  rcases h with rfl | rfl | rfl
  all_goals exact ⟨by decide, _, _, rfl, by decide, by simp⟩

/-- An operation on readable expressions is readable. -/
theorem Expr.Readable.binary {id : NodeId} {op : BinaryOp} {l r : Expr} (hop : op.known = true)
    (hl : l.Readable) (hr : r.Readable) : (Expr.binary id op l r).Readable where
  checked := ⟨hop, hl.checked, hr.checked⟩
  names i hi := by
    rw [Expr.nodes, List.mem_cons, List.mem_append] at hi
    rcases hi with hi | hi | hi
    · cases hi
    · exact hl.names i hi
    · exact hr.names i hi
  constants c hc := by
    rw [Expr.nodes, List.mem_cons, List.mem_append] at hc
    rcases hc with hc | hc | hc
    · cases hc
    · exact hl.constants c hc
    · exact hr.constants c hc

theorem readable_letter {i : Identifier} (h : i.name ∈ ["a", "b", "f"]) :
    (Expr.identifier i).Readable where
  checked := by
    intro hempty
    rw [hempty] at h
    exact absurd h (by decide)
  names j hj := by
    cases List.mem_singleton.1 hj
    exact isName_letter h
  constants c hc := by cases List.mem_singleton.1 hc

theorem readable_quotedCall : quotedCall.Readable where
  checked := by simp [quotedCall, Identifier.Checked]
  names i hi := by
    simp only [quotedCall, Expr.nodes, Expr.listNodes, Identifier.node, List.mem_cons,
      List.mem_append, List.not_mem_nil, or_false] at hi
    rcases hi with hi | hi | hi <;> cases hi
    exact isName_letter (by simp)
  constants c hc := by
    simp only [quotedCall, Expr.nodes, Expr.listNodes, Identifier.node, List.mem_cons,
      List.mem_append, List.not_mem_nil, or_false] at hc
    rcases hc with hc | hc | hc <;> cases hc
    rfl

/-- The first grouping of the example is readable. -/
theorem readable_comparedFirst : comparedFirst.Readable :=
  .binary rfl (readable_letter (by decide))
    (.binary rfl (readable_letter (by decide)) readable_quotedCall)

theorem readable_conjoinedFirst : conjoinedFirst.Readable :=
  .binary rfl (.binary rfl (readable_letter (by decide)) (readable_letter (by decide)))
    readable_quotedCall

/-- The text `a && b <= f("a && b")` belongs to both expressions; they are grouped differently, and
only one of them as in C. -/
theorem source_eq_iff_rightward_comparedFirst :
    comparedFirst.Readable ∧ conjoinedFirst.Readable ∧ comparedFirst.Grouped ∧
      comparedFirst.rightward.shape = conjoinedFirst.rightward.shape ∧
      ¬conjoinedFirst.Grouped := by
  have hgrouped : comparedFirst.Grouped := ⟨by decide, by decide, trivial, by decide, by decide,
    trivial, trivial, trivial⟩
  have hsource : (Node.expr comparedFirst).source = (Node.expr conjoinedFirst).source := by
    decide
  obtain ⟨hiff, hdetermined⟩ :=
    source_eq_iff_rightward readable_comparedFirst readable_conjoinedFirst
  refine ⟨readable_comparedFirst, readable_conjoinedFirst, hgrouped, hiff.1 hsource, fun h => ?_⟩
  cases hdetermined hgrouped h hsource

/-- The text of an expression does not determine it: these two have the same text, and they are not
structurally equal. -/
theorem source_not_injective :
    comparedFirst.Readable ∧ conjoinedFirst.Readable ∧
      (Node.expr comparedFirst).source = (Node.expr conjoinedFirst).source ∧
      comparedFirst.shape ≠ conjoinedFirst.shape := by
  refine ⟨readable_comparedFirst, readable_conjoinedFirst, by decide, fun h => ?_⟩
  cases h

end Stepwise
