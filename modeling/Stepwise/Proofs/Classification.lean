import Stepwise.Proofs.Decimal
import Stepwise.Proofs.Pieces
import Stepwise.Proofs.Ranges
import Mathlib.Data.List.TakeWhile

/-!
# Proofs - The kinds of tokens

Every text that a source program is printed with is told by a rule: white space and brackets by
themselves, and what is left in the middle of a piece of text by the node that it comes from.  This
holds whatever the names and strings of the program are, and a string constant stays one token.

Main results:

- `Token.Classified`: a token that a rule claims.
- `Fragment.Tagged`: a piece of text with the strings that it shows.
- `Node.tagged_own`: the texts of a node itself, one case for each kind of node.
- `Node.tagTokens_textAt`: the tokens of a tree.
- `source_tokens_classified`: the tokens of a program.
-/

namespace Stepwise

/-! ## Tokens -/

namespace Token

/-- A token that a rule claims: it is not empty, and if it counts as white space or as a bracket it
holds nothing else. -/
structure Classified (t : Token) : Prop where
  nonempty : t.text ≠ ""
  claimed : t.category ≠ .plain
  space : t.category = .whitespace → ∀ c ∈ t.text.toList, c ∈ [' ', '\n', '\t', '\r']
  bracket : t.category = .bracket →
    ∀ c ∈ t.text.toList, c ∈ ['(', ')', '[', ']', '\x7b', '\x7d']

/-- A token of any other category need only not be empty. -/
theorem Classified.of_category {t : Token} (hne : t.text ≠ "")
    (hcat : t.category ∉ [Category.plain, .whitespace, .bracket]) : t.Classified := by
  simp only [List.mem_cons, List.not_mem_nil, or_false, not_or] at hcat
  obtain ⟨hplain, hspace, hbracket⟩ := hcat
  exact ⟨hne, hplain, fun h => absurd h hspace, fun h => absurd h hbracket⟩

/-- Every run is of one kind, and none is empty. -/
theorem mem_runs {cs run : List Char} {brackets : Bool} (h : (brackets, run) ∈ runs cs) :
    run ≠ [] ∧ run ⊆ cs ∧ ∀ c ∈ run, isBracket c = brackets := by
  induction cs generalizing brackets run with
  | nil => cases h
  | cons c cs ih =>
    have hsub : ∀ {b r}, (b, r) ∈ runs cs → r ≠ [] ∧ r ⊆ c :: cs ∧ ∀ x ∈ r, isBracket x = b := by
      intro b r hr
      obtain ⟨hne, hsub, hkind⟩ := ih hr
      exact ⟨hne, List.subset_cons_of_subset c hsub, hkind⟩
    rw [runs] at h
    split at h
    · cases List.mem_singleton.1 h
      simp
    · rename_i b r rest hruns
      rw [hruns] at hsub
      split at h
      · rename_i hb
        rcases List.mem_cons.1 h with heq | h
        · cases heq
          obtain ⟨-, hr, hkind⟩ := hsub (List.mem_cons_self ..)
          exact ⟨by simp, by simpa using hr, by simpa [hb] using hkind⟩
        · exact hsub (List.mem_cons_of_mem _ h)
      · rcases List.mem_cons.1 h with heq | h
        · cases heq
          simp
        · exact hsub h

/-- White space is classified as such. -/
theorem tagTrivia_classified {cs : List Char} (hcs : ∀ c ∈ cs, isTrivia c = true) :
    ∀ t ∈ tagTrivia cs, t.Classified := by
  intro t ht
  simp only [tagTrivia, List.mem_map, Prod.exists] at ht
  obtain ⟨brackets, run, hrun, rfl⟩ := ht
  obtain ⟨hne, hsub, hkind⟩ := mem_runs hrun
  constructor
  case nonempty => simpa using hne
  case claimed => cases brackets <;> simp
  case space =>
    intro hcat c hc
    have hmem : c ∈ run := by simpa using hc
    cases brackets with
    | true => cases hcat
    | false =>
      have htrivia := hcs c (hsub hmem)
      rw [isTrivia, hkind c hmem, Bool.false_or] at htrivia
      simpa [isSpace, or_assoc] using htrivia
  case bracket =>
    intro hcat c hc
    have hmem : c ∈ run := by simpa using hc
    cases brackets with
    | true => simpa [isBracket, or_assoc] using hkind c hmem
    | false => cases hcat

/-- White space and brackets are no strings. -/
theorem strings_tagTrivia (cs : List Char) :
    (tagTrivia cs).filter (·.category = .string) = [] := by
  rw [List.filter_eq_nil_iff]
  intro t ht
  simp only [tagTrivia, List.mem_map, Prod.exists] at ht
  obtain ⟨brackets, run, -, rfl⟩ := ht
  cases brackets <;> simp

end Token

/-! ## The middle of a fragment -/

namespace Fragment

/-- The tokens of the middle of a fragment. -/
def coreTokens (f : Fragment) : List Token :=
  let core := (Token.splitTrivia f.text.toList).2.1
  if core.isEmpty then [] else Token.tagCore core f.owner

/-- A fragment is white space, its core and white space. -/
theorem tokens_eq (f : Fragment) :
    f.tokens = Token.tagTrivia (Token.splitTrivia f.text.toList).1 ++ f.coreTokens ++
      Token.tagTrivia (Token.splitTrivia f.text.toList).2.2 := rfl

/-- The tokens of a fragment are classified if those of its middle are. -/
theorem tokens_classified {f : Fragment} (h : ∀ t ∈ f.coreTokens, t.Classified) :
    ∀ t ∈ f.tokens, t.Classified := by
  intro t ht
  rw [tokens_eq, List.mem_append, List.mem_append] at ht
  rcases ht with (ht | ht) | ht
  · apply Token.tagTrivia_classified _ t ht
    intro c hc
    exact List.mem_takeWhile_imp hc
  · exact h t ht
  · apply Token.tagTrivia_classified _ t ht
    intro c hc
    exact List.mem_takeWhile_imp (List.mem_reverse.1 hc)

/-- The strings of a fragment are those of its middle. -/
theorem strings_tokens (f : Fragment) :
    f.tokens.filter (·.category = .string) = f.coreTokens.filter (·.category = .string) := by
  simp [tokens_eq, Token.strings_tagTrivia]

/-- A text of white space and brackets has no middle. -/
theorem coreTokens_of_trivia {f : Fragment} (h : f.text.toList.all Token.isTrivia = true) :
    f.coreTokens = [] := by
  have hdrop : f.text.toList.dropWhile Token.isTrivia = [] :=
    List.dropWhile_eq_nil_iff.2 (List.all_eq_true.1 h)
  simp [coreTokens, Token.splitTrivia, hdrop]

/-- A text that neither starts nor ends with white space or a bracket is its own middle. -/
theorem coreTokens_of_ends {text : String} {owner : Operand} (hne : text ≠ "")
    (hfirst : ∀ c ∈ text.toList.head?, Token.isTrivia c = false)
    (hlast : ∀ c ∈ text.toList.getLast?, Token.isTrivia c = false) :
    coreTokens ⟨text, owner⟩ = Token.tagCore text.toList owner := by
  have hkept : ∀ cs : List Char, (∀ c ∈ cs.head?, Token.isTrivia c = false) →
      cs.dropWhile Token.isTrivia = cs := by
    intro cs hcs
    cases cs with
    | nil => rfl
    | cons c cs => simp [hcs c rfl]
  have hcore : (Token.splitTrivia text.toList).2.1 = text.toList := by
    rw [Token.splitTrivia, hkept _ hfirst, hkept _ (by rwa [List.head?_reverse]),
      List.reverse_reverse]
  have hcons : text.toList.isEmpty = false := by simpa using hne
  rw [coreTokens, hcore, hcons]
  rfl

/-- A fragment whose tokens are all classified, with the strings among them. -/
structure Tagged (f : Fragment) (strings : List Token) : Prop where
  classified : ∀ t ∈ f.coreTokens, t.Classified
  strings_eq : f.coreTokens.filter (·.category = .string) = strings

/-- A fragment without a core holds no strings. -/
theorem tagged_nil {f : Fragment} (h : f.coreTokens = []) : f.Tagged [] := by
  constructor <;> simp [h]

/-- A fragment of white space holds no strings. -/
theorem tagged_of_trivia {text : String} (h : text.toList.all Token.isTrivia = true)
    (owner : Operand) : Tagged ⟨text, owner⟩ [] :=
  tagged_nil (coreTokens_of_trivia h)

/-- A fragment whose middle is one token, told by the node that it comes from. -/
theorem tagged_singleton {f : Fragment} {t : Token} (h : f.coreTokens = [t]) (hne : t.text ≠ "")
    (hcat : t.category ∉ [Category.plain, .whitespace, .bracket, .string]) : f.Tagged [] := by
  simp only [List.mem_cons, List.not_mem_nil, or_false, not_or] at hcat
  obtain ⟨hplain, hspace, hbracket, hstring⟩ := hcat
  constructor
  · intro t' ht
    rw [h] at ht
    cases List.mem_singleton.1 ht
    exact .of_category hne (by simp [hplain, hspace, hbracket])
  · simp [h, hstring]

/-- A text of which the middle is known and has one category. -/
theorem tagged_of_split {text : String} {owner : Operand} (lead core trail : List Char)
    (category : Category) (hsplit : Token.splitTrivia text.toList = (lead, core, trail))
    (htag : Token.tagCore core owner = [⟨String.ofList core, category⟩])
    (hcat : category ∉ [Category.plain, .whitespace, .bracket, .string]) :
    Tagged ⟨text, owner⟩ [] := by
  by_cases hcore : core = []
  · exact tagged_nil (by simp [coreTokens, hsplit, hcore])
  · have htoken : coreTokens ⟨text, owner⟩ = [⟨String.ofList core, category⟩] := by
      simp [coreTokens, hsplit, hcore, htag]
    exact tagged_singleton htoken (by simpa using hcore) hcat

/-- A text of a node whose texts all have one category, a semicolon apart. -/
theorem tagged_of_owner {text : String} {owner : Operand} (category : Category)
    (hcat : category ∉ [Category.plain, .whitespace, .bracket, .string])
    (h : ∀ core, core ≠ [';'] → Token.tagCore core owner = [⟨String.ofList core, category⟩]) :
    Tagged ⟨text, owner⟩ [] := by
  rcases hsplit : Token.splitTrivia text.toList with ⟨lead, core, trail⟩
  by_cases hcore : core = [';']
  · rw [hcore] at hsplit
    exact tagged_of_split lead [';'] trail .semicolon hsplit (by simp [Token.tagCore]) (by decide)
  · exact tagged_of_split lead core trail category hsplit (h core hcore) hcat

end Fragment

/-! ## The texts of a node -/

/-- The string that the text of a node shows, if it is a string constant. -/
def Node.strings : Node → List Token
  | .expr (.constant ⟨_, .string s⟩) => [⟨Text.Quoted.quote s, .string⟩]
  | _ => []

namespace Piece

/-- The texts between separated nodes are the separator. -/
theorem text_of_mem_separated {text sep : String} {depth i : Nat} {ms : List Node}
    (h : own text ∈ separated sep depth i ms) : text = sep := by
  induction ms generalizing i with
  | nil => cases h
  | cons m ms ih =>
    simp only [separated, List.mem_cons, own.injEq, reduceCtorEq, false_or] at h
    rcases h with h | h
    · exact h
    · exact ih h

/-- The only text at the end of a statement is the semicolon. -/
theorem text_of_mem_semicolon {text : String} {last : Bool} (h : own text ∈ semicolon last) :
    text = ";" := by
  cases last with
  | false =>
    cases List.mem_singleton.1 h
    rfl
  | true => cases h

end Piece

/-- The digits of an integer hold neither white space nor brackets. -/
theorem Token.not_isTrivia_of_mem_toString {i : Int} {c : Char} (h : c ∈ (toString i).toList) :
    isTrivia c = false := by
  have hcases : c = '-' ∨ c.isDigit = true := by
    rcases Number.toList_toString i with ⟨-, hlist⟩ | ⟨-, hlist⟩
    · rw [hlist] at h
      exact .inr (Nat.isDigit_of_mem_toDigits (by decide) (by decide) h)
    · rw [hlist, List.mem_cons] at h
      rcases h with h | h
      · exact .inl h
      · exact .inr (Nat.isDigit_of_mem_toDigits (by decide) (by decide) h)
  rcases hcases with rfl | hdigit
  · decide
  · rw [Bool.eq_false_iff]
    intro htrivia
    simp only [isTrivia, isBracket, isSpace, Bool.or_eq_true, beq_iff_eq] at htrivia
    rcases htrivia with (((((rfl | rfl) | rfl) | rfl) | rfl) | rfl) | ((rfl | rfl) | rfl) | rfl
    all_goals cases hdigit

namespace Fragment

theorem tagged_semicolon (owner : Operand) : Tagged ⟨";", owner⟩ [] :=
  tagged_of_split [] [';'] [] .semicolon (by decide) (by simp [Token.tagCore]) (by decide)

/-- White space after white space is white space. -/
theorem isTrivia_append {a b : String} (ha : a.toList.all Token.isTrivia = true)
    (hb : b.toList.all Token.isTrivia = true) : (a ++ b).toList.all Token.isTrivia = true := by
  rw [String.toList_append, List.all_append, ha, hb]
  rfl

/-- Indentation is white space. -/
theorem isTrivia_indentation (depth : Nat) :
    (indentation depth).toList.all Token.isTrivia = true := by
  rw [indentation, String.toList_ofList, List.all_eq_true]
  intro c hc
  rw [(List.mem_replicate.1 hc).2]
  decide

/-- The text of a constant that neither starts nor ends with white space or a bracket. -/
theorem coreTokens_constant {c : Constant} {text : String} (hsemicolon : text.toList ≠ [';'])
    (hne : text ≠ "") (hfirst : ∀ c ∈ text.toList.head?, Token.isTrivia c = false)
    (hlast : ∀ c ∈ text.toList.getLast?, Token.isTrivia c = false) :
    coreTokens ⟨text, .filled (.expr (.constant c))⟩ = Token.ofConstant text.toList c.value := by
  rw [coreTokens_of_ends hne hfirst hlast, Token.tagCore, if_neg hsemicolon]

/-- The text of an integer is a numeral, after a minus sign if it is negative. -/
theorem coreTokens_int (id : NodeId) (n : Int64) :
    ∃ digits : List Char, digits ≠ [] ∧
      (coreTokens ⟨toString n.toInt, .filled (.expr (.constant ⟨id, .int n⟩))⟩ =
          [⟨String.ofList digits, .numeral⟩] ∨
        coreTokens ⟨toString n.toInt, .filled (.expr (.constant ⟨id, .int n⟩))⟩ =
          [⟨"-", .operator⟩, ⟨String.ofList digits, .numeral⟩]) := by
  obtain ⟨d, rest, hd, -, hdigits⟩ := Number.toDigits_eq_cons n.toInt.natAbs
  have hfirst : ∀ c ∈ (toString n.toInt).toList.head?, Token.isTrivia c = false := fun c hc =>
    Token.not_isTrivia_of_mem_toString (List.mem_of_head? hc)
  have hlast : ∀ c ∈ (toString n.toInt).toList.getLast?, Token.isTrivia c = false := fun c hc =>
    Token.not_isTrivia_of_mem_toString (List.mem_of_getLast? hc)
  have hlist := Number.toList_toString n.toInt
  rw [hdigits] at hlist
  generalize toString n.toInt = text at hfirst hlast hlist ⊢
  have hne : text ≠ "" := by
    rintro rfl
    simp at hlist
  refine ⟨Nat.digitChar d :: rest, by simp, ?_⟩
  rcases hlist with ⟨-, hlist⟩ | ⟨-, hlist⟩
  · left
    rw [coreTokens_constant _ hne hfirst hlast, hlist]
    · interval_cases d <;> rfl
    · rw [hlist]
      interval_cases d <;> simp
  · right
    rw [coreTokens_constant _ hne hfirst hlast, hlist]
    · rfl
    · simp [hlist]

/-- The text of a constant. -/
theorem tagged_constant {c : Constant} (hvoid : c.value.datatype ≠ .void) :
    Tagged ⟨c.value.text, .filled (.expr (.constant c))⟩ (Node.strings (.expr (.constant c))) := by
  rcases c with ⟨id, v⟩
  cases v with
  | int n =>
    obtain ⟨digits, hdigits, htokens | htokens⟩ := coreTokens_int id n
    · exact tagged_singleton htokens (by simpa using hdigits) (by simp)
    · constructor
      · intro t ht
        rw [Value.text, htokens] at ht
        simp only [List.mem_cons, List.not_mem_nil, or_false] at ht
        rcases ht with rfl | rfl
        · exact .of_category (by simp) (by simp)
        · exact .of_category (by simpa using hdigits) (by simp)
      · rw [Value.text, htokens]
        rfl
  | string s =>
    have htext : (Text.Quoted.quote s).toList = '"' :: (Text.Quoted.escape s.toList ++ ['"']) := by
      simp [Text.Quoted.quote]
    have hne : Text.Quoted.quote s ≠ "" := by simp [← String.toList_inj, htext]
    have htokens : coreTokens ⟨Text.Quoted.quote s, .filled (.expr (.constant ⟨id, .string s⟩))⟩ =
        [⟨Text.Quoted.quote s, .string⟩] := by
      rw [coreTokens_constant _ hne, Token.ofConstant, String.ofList_toList]
      · rw [htext]
        intro c hc
        cases hc
        decide
      · rw [htext, ← List.cons_append, List.getLast?_concat]
        intro c hc
        cases hc
        decide
      · simp [htext]
    constructor
    · intro t ht
      rw [Value.text, htokens] at ht
      cases List.mem_singleton.1 ht
      exact .of_category hne (by simp)
    · simp [Value.text, htokens, Node.strings]
  | null =>
    change Tagged ⟨"NULL", _⟩ []
    exact tagged_of_split [] ['N', 'U', 'L', 'L'] [] .keyword (by decide)
      (by simp [Token.tagCore, Token.ofConstant]) (by decide)
  | void => exact absurd rfl hvoid
  | other code => exact tagged_nil (by simp [coreTokens, Value.text, Token.splitTrivia])

end Fragment

/-- What stands between a header and its body is white space. -/
theorem Stmt.isTrivia_closeHeader (b : Stmt) (depth : Nat) (owner : Stmt) :
    (b.closeHeader depth owner).text.toList.all Token.isTrivia = true := by
  unfold Stmt.closeHeader Fragment.ofStmt
  split
  · change ") ".toList.all Token.isTrivia = true
    decide
  · exact Fragment.isTrivia_append (by decide) (Fragment.isTrivia_indentation _)

namespace Node

variable {n : Node} {last : Bool} {depth : Nat} {text : String}

/-- The texts of an expression itself. -/
theorem tagged_own_expr {e : Expr} (he : e.Checked)
    (h : Piece.own text ∈ (Node.expr e).pieces last depth) :
    Fragment.Tagged ⟨text, .filled (.expr e)⟩ (strings (.expr e)) := by
  cases e with
  | identifier x =>
    exact Fragment.tagged_of_owner .identifier (by decide) fun core hcore => if_neg hcore
  | constant c =>
    by_cases hvoid : c.value.datatype = .void
    · simp [pieces, hvoid] at h
    · simp only [pieces, if_neg hvoid, List.mem_singleton, Piece.own.injEq] at h
      rw [h]
      exact Fragment.tagged_constant hvoid
  | binary | assign | addAssign | increment =>
    exact Fragment.tagged_of_owner .operator (by decide) fun core hcore => if_neg hcore
  | invoke id f args =>
    have hcases : text = ", " ∨ text = "()" ∨ text = "(" ∨ text = ")" := by
      cases args with
      | nil =>
        have htext : text = "()" := by simpa [pieces] using h
        exact .inr (.inl htext)
      | cons e es =>
        simp only [pieces, List.mem_cons, List.mem_append, List.not_mem_nil, or_false,
          reduceCtorEq, false_or, Piece.own.injEq] at h
        rcases h with h | h | h
        · exact .inr (.inr (.inl h))
        · exact .inl (Piece.text_of_mem_separated h)
        · exact .inr (.inr (.inr h))
    rcases hcases with rfl | rfl | rfl | rfl
    · exact Fragment.tagged_of_split [] [','] [' '] .operator (by decide)
        (by simp [Token.tagCore]) (by decide)
    all_goals exact Fragment.tagged_of_trivia (by decide) _
  | hole v => cases he

/-- The texts of a source statement itself. -/
theorem tagged_own_stmt {s : Stmt} (hs : s.Checked) (hsource : s.isSource = true)
    (h : Piece.own text ∈ (Node.stmt s).pieces last depth) :
    Fragment.Tagged ⟨text, .filled (.stmt s)⟩ [] := by
  cases s with
  | label | jump | condJump | undeclaration => cases hsource
  | expression id v =>
    have htext : text = ";" := by
      cases v with
      | none => exact Piece.text_of_mem_semicolon h
      | some e =>
        simp only [pieces, List.mem_cons, reduceCtorEq, false_or] at h
        exact Piece.text_of_mem_semicolon h
    rw [htext]
    exact Fragment.tagged_semicolon _
  | declaration id t x v =>
    have hcases : text = t.text ++ " " ∨ text = " = " ∨ text = ";" := by
      cases v with
      | none =>
        simp only [pieces, List.mem_cons, reduceCtorEq, false_or, Piece.own.injEq] at h
        rcases h with h | h
        · exact .inl h
        · exact .inr (.inr (Piece.text_of_mem_semicolon h))
      | some e =>
        simp only [pieces, List.mem_cons, reduceCtorEq, false_or, Piece.own.injEq] at h
        rcases h with h | h | h
        · exact .inl h
        · exact .inr (.inl h)
        · exact .inr (.inr (Piece.text_of_mem_semicolon h))
    rcases hcases with rfl | rfl | rfl
    · cases t with
      | int =>
        exact Fragment.tagged_of_split [] ['i', 'n', 't'] [' '] .type (by decide)
          (by simp [Token.tagCore, Token.ofStmtCore, Datatype.text]) (by decide)
      | string =>
        exact Fragment.tagged_of_split [] ['c', 'h', 'a', 'r', '*'] [' '] .type (by decide)
          (by simp [Token.tagCore, Token.ofStmtCore, Datatype.text]) (by decide)
      | void | other => cases hs.1
    · have htype : "=" ≠ t.text := by
        cases t with
        | int | string => decide
        | void | other => cases hs.1
      exact Fragment.tagged_of_split [' '] ['='] [' '] .operator (by decide)
        (by simp [Token.tagCore, Token.ofStmtCore, htype]) (by decide)
    · exact Fragment.tagged_semicolon _
  | block id ss =>
    apply Fragment.tagged_of_trivia
    cases ss with
    | nil =>
      have htext : text = "\x7b\x7d" := by simpa [pieces] using h
      rw [htext]
      decide
    | cons s ss =>
      simp only [pieces, List.mem_cons, List.mem_append, List.not_mem_nil, or_false,
        reduceCtorEq, false_or, Piece.own.injEq] at h
      have hbreak : "\n".toList.all Token.isTrivia = true := by decide
      rcases h with rfl | rfl | h | rfl
      · decide
      · exact Fragment.isTrivia_indentation _
      · rw [Piece.text_of_mem_separated h]
        exact Fragment.isTrivia_append hbreak (Fragment.isTrivia_indentation _)
      · apply Fragment.isTrivia_append _ (by decide)
        exact Fragment.isTrivia_append hbreak (Fragment.isTrivia_indentation _)
  | forLoop id i c u b =>
    simp only [pieces, List.mem_cons, reduceCtorEq, false_or, Piece.own.injEq, List.not_mem_nil,
      or_false] at h
    rcases h with rfl | rfl | rfl | rfl
    · exact Fragment.tagged_of_split [] ['f', 'o', 'r'] [' ', '('] .keyword (by decide)
        (by simp [Token.tagCore, Token.ofStmtCore]) (by decide)
    · exact Fragment.tagged_of_trivia (by decide) _
    · exact Fragment.tagged_of_trivia (by decide) _
    · exact Fragment.tagged_of_trivia (Stmt.isTrivia_closeHeader b depth _) _
  | ifThen id c b =>
    simp only [pieces, List.mem_cons, reduceCtorEq, false_or, Piece.own.injEq, List.not_mem_nil,
      or_false] at h
    rcases h with rfl | rfl
    · exact Fragment.tagged_of_split [] ['i', 'f'] [' ', '('] .keyword (by decide)
        (by simp [Token.tagCore, Token.ofStmtCore]) (by decide)
    · exact Fragment.tagged_of_trivia (Stmt.isTrivia_closeHeader b depth _) _

/-- The texts of a node itself. -/
theorem tagged_own (h : n.Checked) (hsource : ∀ s, n = .stmt s → s.isSource = true)
    (hown : Piece.own text ∈ n.pieces last depth) :
    Fragment.Tagged ⟨text, .filled n⟩ n.strings := by
  cases n with
  | expr e => exact tagged_own_expr h hown
  | stmt s => exact tagged_own_stmt h (hsource s rfl) hown

end Node

/-! ## The text of a tree -/

/-- Lists that come from the children among the pieces of a text only. -/
theorem Piece.flatMap_children {α : Type} {g : Piece → List α} {f : Node → List α}
    {ps : List Piece} (hown : ∀ text, own text ∈ ps → g (own text) = [])
    (hpart : ∀ i m l d, part i m l d ∈ ps → g (part i m l d) = f m) :
    ps.flatMap g = (ps.filterMap child?).flatMap fun q => f q.1 := by
  induction ps with
  | nil => rfl
  | cons p ps ih =>
    have htail := ih (fun text h => hown text (List.mem_cons_of_mem p h))
      (fun i m l d h => hpart i m l d (List.mem_cons_of_mem p h))
    rw [List.flatMap_cons, htail]
    cases p with
    | own text =>
      rw [hown text (List.mem_cons_self ..)]
      rfl
    | part i m l d =>
      rw [hpart i m l d (List.mem_cons_self ..)]
      rfl

/-- What the pieces of a text show is the string of the node, if it is a constant, and else what its
children show. -/
theorem Node.flatMap_pieces {n : Node} {last : Bool} {depth : Nat} (h : n.Checked)
    {g : Piece → List Token} {f : Node → List Token}
    (hown : ∀ text, .own text ∈ n.pieces last depth → g (.own text) = n.strings)
    (hpart : ∀ i m l d, .part i m l d ∈ n.pieces last depth → g (.part i m l d) = f m) :
    (n.pieces last depth).flatMap g = n.strings ++ n.children.flatMap f := by
  by_cases hstrings : n.strings = []
  · rw [hstrings] at hown ⊢
    rw [Piece.flatMap_children hown hpart, children_pieces h, List.nil_append]
    nth_rewrite 2 [← List.zipIdx_map_fst 0 n.children]
    rw [List.flatMap_map]
  · obtain ⟨id, s, rfl⟩ : ∃ id s, n = .expr (.constant ⟨id, .string s⟩) := by
      unfold strings at hstrings
      split at hstrings
      · exact ⟨_, _, rfl⟩
      · exact absurd rfl hstrings
    have hpieces : (Node.expr (.constant ⟨id, .string s⟩)).pieces last depth =
        [.own (Value.text (.string s))] := rfl
    rw [hpieces] at hown ⊢
    simpa [children] using hown _ (List.mem_singleton.2 rfl)

/-- Every token of a tree without labels and jumps is classified, and the strings among them are
those of its nodes. -/
theorem Node.tagTokens_textAt {n : Node} (h : n.Checked)
    (hsource : ∀ s, .stmt s ∈ n.nodes → s.isSource = true) (last : Bool) (depth : Nat) :
    (∀ t ∈ tagTokens (n.textAt last depth), t.Classified) ∧
      (tagTokens (n.textAt last depth)).filter (·.category = .string) =
        n.nodes.flatMap strings := by
  induction n, h using Checked.induct generalizing last depth with
  | step n h ih =>
    have hown : ∀ text, .own text ∈ n.pieces last depth →
        Fragment.Tagged ⟨text, .filled n⟩ n.strings := by
      intro text htext
      apply tagged_own h _ htext
      intro s hs
      apply hsource
      rw [← hs, nodes_eq h]
      exact List.mem_cons_self ..
    have hpart : ∀ i m l d, .part i m l d ∈ n.pieces last depth →
        (∀ t ∈ tagTokens (m.textAt l d), t.Classified) ∧
          (tagTokens (m.textAt l d)).filter (·.category = .string) = m.nodes.flatMap strings := by
      intro i m l d hpiece
      have hchild : (m, i) ∈ (n.pieces last depth).filterMap Piece.child? :=
        List.mem_filterMap.2 ⟨_, hpiece, rfl⟩
      rw [children_pieces h, List.mem_zipIdx_iff_getElem?] at hchild
      have hm := List.mem_of_getElem? hchild
      apply ih m hm
      intro s hs
      apply hsource
      rw [nodes_eq h]
      exact List.mem_cons_of_mem n (List.mem_flatMap.2 ⟨m, hm, hs⟩)
    rw [textAt_eq, tagTokens, List.flatMap_assoc]
    constructor
    · intro t ht
      obtain ⟨p, hp, ht⟩ := List.mem_flatMap.1 ht
      cases p with
      | own text =>
        simp only [Piece.fragments, List.flatMap_cons, List.flatMap_nil, List.append_nil] at ht
        exact Fragment.tokens_classified (hown text hp).classified t ht
      | part i m l d => exact (hpart i m l d hp).1 t ht
    · rw [List.filter_flatMap, nodes_eq h, List.flatMap_cons, List.flatMap_assoc]
      apply flatMap_pieces h
      · intro text htext
        simpa [Piece.fragments, Fragment.strings_tokens] using (hown text htext).strings_eq
      · intro i m l d hp
        exact (hpart i m l d hp).2

/-- The tokens of a source program spell its text; each of them is classified, and those that are
strings are the quoted constants of the program, each as often as it occurs and in this order. -/
theorem source_tokens_classified {tree : List Stmt} (hchecked : Stmt.AllChecked tree)
    (hsource : ∀ s, .stmt s ∈ Stmt.listNodes tree → s.isSource = true) :
    renderSlots (tree.map .filled) = .ok (render tree) ∧
    Token.join (tagTokens (render tree)) = Fragment.join (render tree) ∧
    (∀ t ∈ tagTokens (render tree), t.Classified) ∧
    (tagTokens (render tree)).filter (·.category = .string) =
      (Stmt.listNodes tree).flatMap Node.strings := by
  have hline : ∀ s ∈ tree, (∀ t ∈ tagTokens (s.fragments 0), t.Classified) ∧
      (tagTokens (s.fragments 0)).filter (·.category = .string) =
        s.nodes.flatMap Node.strings := by
    intro s hs
    have hs' : (Node.stmt s).Checked := Stmt.allChecked_iff.1 hchecked s hs
    apply Node.tagTokens_textAt hs' _ false 0
    intro s' hmem
    apply hsource
    rw [Stmt.listNodes_eq_flatMap]
    exact List.mem_flatMap.2 ⟨s, hs, hmem⟩
  have hbreak : Fragment.lineBreak.Tagged [] := Fragment.tagged_of_trivia (by decide) .empty
  refine ⟨renderSlots_filled hchecked, Token.join_tagTokens _, ?_, ?_⟩
  · intro t ht
    rw [tagTokens, render, List.flatMap_assoc] at ht
    obtain ⟨s, hs, ht⟩ := List.mem_flatMap.1 ht
    rw [List.flatMap_append, List.mem_append, List.flatMap_singleton] at ht
    rcases ht with ht | ht
    · exact (hline s hs).1 t ht
    · exact Fragment.tokens_classified hbreak.classified t ht
  · rw [tagTokens, render, List.flatMap_assoc, List.filter_flatMap, Stmt.listNodes_eq_flatMap,
      List.flatMap_assoc]
    apply List.flatMap_congr
    intro s hs
    rw [List.flatMap_append, List.filter_append, List.flatMap_singleton, Fragment.strings_tokens,
      hbreak.strings_eq, List.append_nil]
    exact (hline s hs).2

/-- The program
`char* ; ( = "a;\"("; for (int i = -1; i <= 3; i += 1) if (i) { f("}", NULL, "}"); }`,
in which a name and the strings look like what stands between tokens. -/
def disguisedProgram : List Stmt :=
  let name : Identifier := ⟨1, "; ("⟩
  let i : Identifier := ⟨2, "i"⟩
  let number (id : NodeId) (n : Int64) : Expr := .constant ⟨id, .int n⟩
  let bracket : Expr := .constant ⟨3, .string "\x7d"⟩
  [.declaration 4 .string name (some (.constant ⟨5, .string "a;\"("⟩)),
    .forLoop 6 (.declaration 7 .int i (some (number 8 (-1))))
      (.expression 9 (some (.binary 10 .le (.identifier i) (number 11 3))))
      (.expression 12 (some (.addAssign 13 i (number 14 1))))
      (.ifThen 15 (.identifier i) (.block 16 [.expression 17
        (some (.invoke 18 ⟨19, "f"⟩ [bracket, .constant ⟨20, .null⟩, bracket]))]))]

/-- The constant that is shared counts twice. -/
theorem source_tokens_classified_disguisedProgram :
    (∀ t ∈ tagTokens (render disguisedProgram), t.Classified) ∧
    (tagTokens (render disguisedProgram)).filter (·.category = .string) =
      [⟨"\"a;\\\"(\"", .string⟩, ⟨"\"\x7d\"", .string⟩, ⟨"\"\x7d\"", .string⟩] := by
  have hchecked : Stmt.AllChecked disguisedProgram := by
    simp [disguisedProgram, Identifier.Checked, Datatype.declarable, BinaryOp.known]
  have hsource : ∀ s, .stmt s ∈ Stmt.listNodes disguisedProgram → s.isSource = true := by
    simp [disguisedProgram, Stmt.listNodes, Stmt.nodes, Expr.optionNodes, Expr.nodes,
      Expr.listNodes, Identifier.node, Stmt.isSource]
  have hstrings : (Stmt.listNodes disguisedProgram).flatMap Node.strings =
      [⟨"\"a;\\\"(\"", .string⟩, ⟨"\"\x7d\"", .string⟩, ⟨"\"\x7d\"", .string⟩] := by
    decide
  obtain ⟨-, -, hclassified, hfilter⟩ := source_tokens_classified hchecked hsource
  exact ⟨hclassified, hfilter.trans hstrings⟩

end Stepwise
