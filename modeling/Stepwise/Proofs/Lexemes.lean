import Stepwise.Proofs.Decimal
import Stepwise.Proofs.Decoding
import Mathlib.Data.List.Chain

/-!
# Proofs - The words of a printed expression

The text of an expression is a sequence of lexemes: names, constants, links between operands, and
the signs of calls and increments.  A text can be cut into lexemes in one way only, as a name or a
number never stands next to another one, a quoted string ends at the first quote that is not
escaped, and no other lexeme is the beginning of another.

Main definitions:

- `Lexeme` and `Expr.lexemes`.
- `Expr.Readable`: the names are names of C, and the constants can be written.

Main results:

- `Expr.toList_source`: the text of an expression is that of its lexemes.
- `Expr.source_eq_iff_lexemes_eq`: expressions have the same text exactly if they have the same
  lexemes.
-/

namespace Stepwise

/-! ## Lexemes -/

/-- What joins two operands. -/
inductive Link where
  | operator (op : BinaryOp)
  | assign
  | addAssign
  deriving DecidableEq, Repr

/-- The text of a link, with the blanks around it. -/
def Link.text : Link → String
  | operator op => " " ++ op.text ++ " "
  | assign => " = "
  | addAssign => " += "

/-- A word or a sign of an expression. -/
inductive Lexeme where
  | name (name : String)
  | value (value : Value)
  | link (link : Link)
  | plusPlus
  | opening
  | closing
  | comma
  deriving DecidableEq, Repr

namespace Lexeme

/-- The text of a lexeme. -/
def text : Lexeme → String
  | name s => s
  | value v => v.text
  | link k => k.text
  | plusPlus => "++"
  | opening => "("
  | closing => ")"
  | comma => ", "

/-- The characters of a list of lexemes. -/
def chars (ts : List Lexeme) : List Char :=
  ts.flatMap fun t => t.text.toList

@[simp] theorem chars_nil : chars [] = [] := rfl

@[simp] theorem chars_cons (t : Lexeme) (ts : List Lexeme) :
    chars (t :: ts) = t.text.toList ++ chars ts := rfl

@[simp] theorem chars_append (ts us : List Lexeme) : chars (ts ++ us) = chars ts ++ chars us :=
  List.flatMap_append

end Lexeme

mutual

/-- The lexemes of an expression. -/
def Expr.lexemes : Expr → List Lexeme
  | .identifier i => [.name i.name]
  | .constant c => [.value c.value]
  | .binary _ op l r => l.lexemes ++ .link (.operator op) :: r.lexemes
  | .assign _ x v => .name x.name :: .link .assign :: v.lexemes
  | .addAssign _ x v => .name x.name :: .link .addAssign :: v.lexemes
  | .increment _ x => [.name x.name, .plusPlus]
  | .invoke _ f args => .name f.name :: .opening :: (Expr.argumentLexemes args ++ [.closing])
  | .hole _ => []

/-- The lexemes of the arguments of a call. -/
def Expr.argumentLexemes : List Expr → List Lexeme
  | [] => []
  | e :: es => e.lexemes ++ Expr.moreLexemes es

/-- The lexemes of further arguments, each after a comma. -/
def Expr.moreLexemes : List Expr → List Lexeme
  | [] => []
  | e :: es => .comma :: (e.lexemes ++ Expr.moreLexemes es)

end

/-! ## The text of an expression -/

namespace Fragment

/-- The characters of a list of fragments. -/
def chars (frags : List Fragment) : List Char :=
  frags.flatMap fun f => f.text.toList

/-- The characters of joined fragments are those of the fragments in turn. -/
theorem toList_join (frags : List Fragment) : (join frags).toList = chars frags := by
  induction frags with
  | nil => rfl
  | cons f frags ih =>
    unfold join chars at ih ⊢
    rw [List.map_cons, String.join_cons, String.toList_append, ih, List.flatMap_cons]

@[simp] theorem chars_nil : chars [] = [] := rfl

@[simp] theorem chars_cons (f : Fragment) (frags : List Fragment) :
    chars (f :: frags) = f.text.toList ++ chars frags := rfl

@[simp] theorem chars_append (frags more : List Fragment) :
    chars (frags ++ more) = chars frags ++ chars more :=
  List.flatMap_append

end Fragment

/-- Further arguments are spelled by their lexemes, if each argument is. -/
theorem Expr.chars_moreFragments {sep : Fragment} (hsep : sep.text = ", ") {es : List Expr}
    (hes : ∀ e ∈ es, Fragment.chars e.fragments = Lexeme.chars e.lexemes) :
    Fragment.chars (Expr.moreFragments sep es) = Lexeme.chars (Expr.moreLexemes es) := by
  induction es with
  | nil => rfl
  | cons e es ih =>
    have he := hes e (List.mem_cons_self ..)
    have hes := ih fun e' he' => hes e' (List.mem_cons_of_mem _ he')
    simp [Expr.moreFragments, Expr.moreLexemes, Lexeme.text, hsep, he, hes]

/-- An expression is spelled by its lexemes. -/
theorem Expr.chars_fragments (e : Expr) :
    Fragment.chars e.fragments = Lexeme.chars e.lexemes := by
  induction e using Expr.induct with
  | identifier i => rfl
  | constant c =>
    rw [Expr.fragments, Constant.fragments]
    by_cases hvoid : c.value.datatype = .void
    · have hvalue : c.value = .void := by
        cases hv : c.value <;> simp_all [Value.datatype]
      rw [if_pos hvoid, Expr.lexemes, hvalue]
      rfl
    · rw [if_neg hvoid]
      rfl
  | binary id op l r ihl ihr =>
    simp [Expr.fragments, Expr.lexemes, Lexeme.text, Link.text, Fragment.ofExpr, ihl, ihr]
  | assign id x v ih | addAssign id x v ih =>
    simp [Expr.fragments, Expr.lexemes, Lexeme.text, Link.text, Fragment.ofExpr,
      Identifier.fragment, ih]
  | increment id x => rfl
  | invoke id f args ih =>
    cases args with
    | nil =>
      simp [Expr.fragments, Expr.lexemes, Expr.argumentLexemes, Lexeme.text, Fragment.ofExpr,
        Identifier.fragment]
    | cons e es =>
      have he := ih e (List.mem_cons_self ..)
      simp [Expr.fragments, Expr.lexemes, Expr.argumentLexemes, Lexeme.text, Fragment.ofExpr,
        Identifier.fragment, he]
      exact Expr.chars_moreFragments rfl fun e' he' => ih e' (List.mem_cons_of_mem _ he')
  | hole v => rfl

/-- The text of an expression is that of its lexemes. -/
theorem Expr.toList_source (e : Expr) : (Node.expr e).source.toList = Lexeme.chars e.lexemes := by
  rw [Node.source, Fragment.toList_join]
  exact e.chars_fragments

/-! ## Quoted strings -/

namespace Text.Quoted

/-- No spelling of a character starts with a bare quote. -/
theorem escapeChar_start (c : Char) : ∃ d ds, escapeChar c = d :: ds ∧ d ≠ '"' := by
  unfold escapeChar
  split
  all_goals first | exact ⟨_, _, rfl, by decide⟩ | exact ⟨_, _, rfl, by assumption⟩

/-- The spelling of a character shows where it ends. -/
theorem escapeChar_append_inj {c d : Char} {rest rest' : List Char}
    (h : escapeChar c ++ rest = escapeChar d ++ rest') : c = d ∧ rest = rest' := by
  unfold escapeChar at h
  split at h <;> split at h <;> grind

/-- A quoted text ends at the first quote that is not escaped. -/
theorem escape_append_quote {a b rest rest' : List Char}
    (h : escape a ++ '"' :: rest = escape b ++ '"' :: rest') : a = b ∧ rest = rest' := by
  induction a generalizing b with
  | nil =>
    cases b with
    | nil => exact ⟨rfl, (List.cons.inj h).2⟩
    | cons d ds =>
      obtain ⟨c, cs, hd, hne⟩ := escapeChar_start d
      rw [escape_cons, hd] at h
      exact absurd (List.cons.inj h).1.symm hne
  | cons c cs ih =>
    cases b with
    | nil =>
      obtain ⟨d, ds, hc, hne⟩ := escapeChar_start c
      rw [escape_cons, hc] at h
      exact absurd (List.cons.inj h).1 hne
    | cons d ds =>
      rw [escape_cons, escape_cons, List.append_assoc, List.append_assoc] at h
      obtain ⟨rfl, htail⟩ := escapeChar_append_inj h
      obtain ⟨rfl, hrest⟩ := ih htail
      exact ⟨rfl, hrest⟩

end Text.Quoted

/-! ## Readable lexemes -/

/-- A character that can start a name of C. -/
def isNameStart (c : Char) : Bool := c.isAlpha || c == '_'

/-- A character of a name of C. -/
def isNamePart (c : Char) : Bool := c.isAlphanum || c == '_'

/-- A name of C other than the one that the null string has. -/
def IsName (s : String) : Prop :=
  s ≠ "NULL" ∧ ∃ c cs, s.toList = c :: cs ∧ isNameStart c = true ∧ ∀ d ∈ cs, isNamePart d = true

/-- A character of a name or of a number. -/
def isWordPart (c : Char) : Bool := isNamePart c || c == '-'

namespace Lexeme

/-- A lexeme of a text that can be read: a name of C, an integer, a string or the null string, or a
sign of the language. -/
def Readable : Lexeme → Prop
  | name s => IsName s
  | value v => v.datatype.declarable = true
  | link (.operator op) => op.known = true
  | _ => True

/-- Whether a lexeme is a name or a number. -/
def isWord : Lexeme → Bool
  | name _ => true
  | value (.string _) => false
  | value _ => true
  | _ => false

/-- Whether a lexeme is a quoted string. -/
def isString : Lexeme → Bool
  | value (.string _) => true
  | _ => false

/-- The lexemes whose texts are fixed and are no words. -/
def signs : List Lexeme :=
  [link (.operator .and), link (.operator .le), link (.operator .eq), link .assign,
    link .addAssign, plusPlus, opening, closing, comma]

/-- No sign is the beginning of another one. -/
theorem signs_prefixFree :
    ∀ t ∈ signs, ∀ u ∈ signs, t.text.toList <+: u.text.toList → t = u := by
  decide

/-- Signs start neither like words nor like strings. -/
theorem signs_start : ∀ t ∈ signs,
    (t.text.toList.head?.any fun c => !isWordPart c && c != '"') = true := by
  decide

/-- A readable lexeme that is neither a word nor a string is a sign. -/
theorem mem_signs {t : Lexeme} (ht : t.Readable) (hword : t.isWord = false)
    (hstring : t.isString = false) : t ∈ signs := by
  cases t with
  | name s => cases hword
  | value v =>
    cases v with
    | string s => cases hstring
    | _ => cases hword
  | link k =>
    cases k with
    | operator op =>
      cases op with
      | other code => cases ht
      | _ => simp [signs]
    | _ => simp [signs]
  | _ => simp [signs]

/-- An integer starts with a digit or its sign, and digits follow. -/
theorem toList_int (n : Int64) :
    ∃ c cs, (value (.int n)).text.toList = c :: cs ∧ (c = '-' ∨ c.isDigit = true) ∧
      ∀ d ∈ cs, d.isDigit = true := by
  have hdigits : ∀ d ∈ Nat.toDigits 10 n.toInt.natAbs, d.isDigit = true := fun d hd =>
    Nat.isDigit_of_mem_toDigits (by decide) (by decide) hd
  rcases Number.toList_toString n.toInt with ⟨-, hlist⟩ | ⟨-, hlist⟩
  · obtain ⟨d, rest, -, -, hrest⟩ := Number.toDigits_eq_cons n.toInt.natAbs
    rw [hrest] at hlist hdigits
    exact ⟨_, rest, hlist, .inr (hdigits _ (List.mem_cons_self ..)),
      fun d' hd' => hdigits d' (List.mem_cons_of_mem _ hd')⟩
  · exact ⟨'-', _, hlist, .inl rfl, hdigits⟩

/-- Digits are parts of words. -/
theorem isWordPart_of_isDigit {c : Char} (h : c.isDigit = true) : isWordPart c = true := by
  simp [isWordPart, isNamePart, Char.isAlphanum, h]

/-- What starts a name is a part of words. -/
theorem isWordPart_of_isNameStart {c : Char} (h : isNameStart c = true) : isWordPart c = true := by
  simp only [isNameStart, Bool.or_eq_true] at h
  rcases h with h | h
  · simp [isWordPart, isNamePart, Char.isAlphanum, h]
  · simp [isWordPart, isNamePart, h]

/-- The characters of words are those of names and numbers, and there is at least one. -/
theorem word_chars {t : Lexeme} (ht : t.Readable) (hword : t.isWord = true) :
    ∃ c cs, t.text.toList = c :: cs ∧ ∀ d ∈ c :: cs, isWordPart d = true := by
  cases t with
  | name s =>
    obtain ⟨-, c, cs, hlist, hc, hcs⟩ := ht
    refine ⟨c, cs, hlist, List.forall_mem_cons.2 ⟨isWordPart_of_isNameStart hc, ?_⟩⟩
    intro d hd
    simp [isWordPart, hcs d hd]
  | value v =>
    cases v with
    | int n =>
      obtain ⟨c, cs, hlist, hc, hcs⟩ := toList_int n
      refine ⟨c, cs, hlist, List.forall_mem_cons.2 ⟨?_, fun d hd => ?_⟩⟩
      · rcases hc with rfl | hc
        · rfl
        · exact isWordPart_of_isDigit hc
      · exact isWordPart_of_isDigit (hcs d hd)
    | null =>
      have hall : ['N', 'U', 'L', 'L'].all isWordPart = true := rfl
      exact ⟨'N', ['U', 'L', 'L'], rfl, List.all_eq_true.1 hall⟩
    | string s => cases hword
    | void => cases ht
    | other code => cases ht
  | _ => cases hword

/-- A name does not start like a number. -/
theorem not_isNameStart {c : Char} (h : c = '-' ∨ c.isDigit = true) : isNameStart c = false := by
  rcases h with rfl | h
  · rfl
  · have hunder : c ≠ '_' := by
      rintro rfl
      cases h
    have halpha : c.isAlpha = false := by
      rw [Bool.eq_false_iff]
      intro halpha
      delta Char.isAlpha Char.isUpper Char.isLower at halpha
      simp only [Char.isDigit, Bool.or_eq_true, Bool.and_eq_true, decide_eq_true_eq, ge_iff_le,
        UInt32.le_iff_toNat_le, Char.toNat_val, Char.reduceToNat] at halpha h
      omega
    simp [isNameStart, halpha, hunder]

/-- The word with given characters. -/
def ofWord (cs : List Char) : Lexeme :=
  if cs = "NULL".toList then value .null
  else if cs.head?.any isNameStart then name (String.ofList cs)
  else value (.int (Int64.ofInt ((Number.Literal.integer? cs).getD 0)))

/-- A word can be told from its text. -/
theorem ofWord_text {t : Lexeme} (ht : t.Readable) (hword : t.isWord = true) :
    ofWord t.text.toList = t := by
  cases t with
  | name s =>
    obtain ⟨hnull, c, cs, hlist, hc, -⟩ := ht
    have hne : s.toList ≠ "NULL".toList := fun h => hnull (String.toList_inj.1 h)
    have hstart : s.toList.head?.any isNameStart = true := by
      rw [hlist]
      exact hc
    rw [text, ofWord, if_neg hne, if_pos hstart, String.ofList_toList]
  | value v =>
    cases v with
    | int n =>
      obtain ⟨c, cs, hlist, hc, -⟩ := toList_int n
      have hstart : (value (.int n)).text.toList.head?.any isNameStart = false := by
        rw [hlist]
        exact not_isNameStart hc
      have hne : (value (.int n)).text.toList ≠ "NULL".toList := by
        intro h
        rw [h] at hstart
        cases hstart
      rw [ofWord, if_neg hne, if_neg (by simp [hstart]), text, Value.text,
        Number.Literal.integer?_toString, Option.getD_some, Int64.ofInt_toInt]
    | null => rfl
    | string s => cases hword
    | void => cases ht
    | other code => cases ht
  | _ => cases hword

/-! ## Cutting a text into lexemes -/

/-- A text that does not go on with a character of a word. -/
def Stops (cs : List Char) : Prop :=
  ∀ c ∈ cs.head?, isWordPart c = false

/-- A word that is followed by something else is read whole. -/
theorem takeWhile_word {t : Lexeme} (ht : t.Readable) (hword : t.isWord = true) {rest : List Char}
    (hrest : Stops rest) : (t.text.toList ++ rest).takeWhile isWordPart = t.text.toList := by
  obtain ⟨c, cs, hlist, hall⟩ := word_chars ht hword
  rw [hlist, List.takeWhile_append_of_pos hall]
  cases rest with
  | nil => simp
  | cons d ds =>
    have hd : isWordPart d = false := hrest d rfl
    simp [List.takeWhile, hd]

/-- A string lexeme is the constant of a string. -/
theorem eq_string {t : Lexeme} (h : t.isString = true) : ∃ s, t = value (.string s) := by
  cases t with
  | value v =>
    cases v with
    | string s => exact ⟨s, rfl⟩
    | _ => cases h
  | _ => cases h

/-- A string is spelled with its escapes between quotes. -/
theorem toList_string (s : String) :
    (value (.string s)).text.toList = '"' :: (Text.Quoted.escape s.toList ++ ['"']) := by
  simp [text, Value.text, Text.Quoted.quote]

/-- The first character of a lexeme tells whether it is a word, a string or a sign. -/
theorem start {t : Lexeme} (ht : t.Readable) :
    ∃ c cs, t.text.toList = c :: cs ∧ isWordPart c = t.isWord ∧ (c == '"') = t.isString := by
  cases hword : t.isWord with
  | true =>
    obtain ⟨c, cs, hlist, hall⟩ := word_chars ht hword
    have hc : isWordPart c = true := hall c (List.mem_cons_self ..)
    have hstring : t.isString = false := by
      cases t with
      | value v => cases v <;> first | rfl | cases hword
      | _ => rfl
    refine ⟨c, cs, hlist, hc, ?_⟩
    rw [hstring, beq_eq_false_iff_ne]
    rintro rfl
    cases hc
  | false =>
    cases hstring : t.isString with
    | true =>
      obtain ⟨s, rfl⟩ := eq_string hstring
      exact ⟨'"', _, toList_string s, rfl, rfl⟩
    | false =>
      have hstart := signs_start t (mem_signs ht hword hstring)
      cases hlist : t.text.toList with
      | nil =>
        rw [hlist] at hstart
        cases hstart
      | cons c cs =>
        rw [hlist] at hstart
        simp only [List.head?_cons, Option.any_some, Bool.and_eq_true, Bool.not_eq_true',
          bne_iff_ne] at hstart
        exact ⟨c, cs, rfl, hstart.1, beq_eq_false_iff_ne.2 hstart.2⟩

section First

variable {t u : Lexeme} {rest rest' : List Char}

/-- A word goes on as long as it can. -/
theorem eq_of_word (ht : t.Readable) (hu : u.Readable) (hw : t.isWord = true)
    (hw' : u.isWord = true) (hrest : Stops rest) (hrest' : Stops rest')
    (h : t.text.toList ++ rest = u.text.toList ++ rest') : t = u := by
  have htake := congrArg (List.takeWhile isWordPart) h
  rw [takeWhile_word ht hw hrest, takeWhile_word hu hw' hrest'] at htake
  rw [← ofWord_text ht hw, htake, ofWord_text hu hw']

/-- A string ends at its first quote that is not escaped. -/
theorem eq_of_string (hs : t.isString = true) (hs' : u.isString = true)
    (h : t.text.toList ++ rest = u.text.toList ++ rest') : t = u := by
  obtain ⟨s, rfl⟩ := eq_string hs
  obtain ⟨s', rfl⟩ := eq_string hs'
  rw [toList_string, toList_string] at h
  simp only [List.cons_append, List.append_assoc, List.nil_append, List.cons.injEq,
    true_and] at h
  rw [String.toList_inj.1 (Text.Quoted.escape_append_quote h).1]

/-- No sign is the beginning of another one. -/
theorem eq_of_mem_signs (ht : t ∈ signs) (hu : u ∈ signs)
    (h : t.text.toList ++ rest = u.text.toList ++ rest') : t = u := by
  rcases List.prefix_or_prefix_of_prefix (List.prefix_append _ rest)
      (h ▸ List.prefix_append _ rest') with hpre | hpre
  · exact signs_prefixFree t ht u hu hpre
  · exact (signs_prefixFree u hu t ht hpre).symm

/-- The first lexeme of a text and the rest are determined: the first character tells words,
strings and signs apart. -/
theorem text_append_inj (ht : t.Readable) (hu : u.Readable)
    (hrest : t.isWord = true → Stops rest) (hrest' : u.isWord = true → Stops rest')
    (h : t.text.toList ++ rest = u.text.toList ++ rest') : t = u ∧ rest = rest' := by
  suffices htu : t = u by
    subst htu
    exact ⟨rfl, List.append_cancel_left h⟩
  obtain ⟨c, cs, hlist, hword, hstring⟩ := start ht
  obtain ⟨d, ds, hlist', hword', hstring'⟩ := start hu
  obtain rfl : c = d := by
    rw [hlist, hlist'] at h
    exact (List.cons.inj h).1
  rw [hword] at hword'
  rw [hstring] at hstring'
  cases hw : t.isWord with
  | true =>
    have hw' := hword'.symm.trans hw
    exact eq_of_word ht hu hw hw' (hrest hw) (hrest' hw') h
  | false =>
    have hw' := hword'.symm.trans hw
    cases hs : t.isString with
    | true => exact eq_of_string hs (hstring'.symm.trans hs) h
    | false =>
      have hs' := hstring'.symm.trans hs
      exact eq_of_mem_signs (mem_signs ht hw hs) (mem_signs hu hw' hs') h

end First

/-- Of two lexemes next to each other, at most one is a word. -/
def Apart (t u : Lexeme) : Prop :=
  t.isWord = false ∨ u.isWord = false

/-- A word is followed by something else in a chain that keeps words apart. -/
theorem stops_chars {t : Lexeme} {ts : List Lexeme} (hts : ∀ u ∈ ts, u.Readable)
    (hchain : List.IsChain Apart (t :: ts)) (hword : t.isWord = true) : Stops (chars ts) := by
  cases ts with
  | nil => simp [Stops]
  | cons u us =>
    obtain ⟨c, cs, hlist, hc, -⟩ := start (hts u (List.mem_cons_self ..))
    have hu : u.isWord = false := by
      have hapart := (List.isChain_cons_cons.1 hchain).1
      simpa [Apart, hword] using hapart
    intro d hd
    rw [chars_cons, hlist] at hd
    cases hd
    rw [hc, hu]

/-- A text is cut into lexemes in one way only. -/
theorem chars_injective {ts us : List Lexeme} (hts : ∀ t ∈ ts, t.Readable)
    (hus : ∀ u ∈ us, u.Readable) (hchain : List.IsChain Apart ts) (hchain' : List.IsChain Apart us)
    (h : chars ts = chars us) : ts = us := by
  have hne : ∀ {t : Lexeme} {ts : List Lexeme}, t.Readable → chars (t :: ts) ≠ [] := by
    intro t ts ht hnil
    obtain ⟨c, cs, hlist, -⟩ := start ht
    rw [chars_cons, hlist] at hnil
    cases hnil
  induction ts generalizing us with
  | nil =>
    cases us with
    | nil => rfl
    | cons u us => exact absurd h.symm (hne (hus u (List.mem_cons_self ..)))
  | cons t ts ih =>
    cases us with
    | nil => exact absurd h (hne (hts t (List.mem_cons_self ..)))
    | cons u us =>
      obtain ⟨ht, htail⟩ := List.forall_mem_cons.1 hts
      obtain ⟨hu, htail'⟩ := List.forall_mem_cons.1 hus
      obtain ⟨rfl, hrest⟩ := text_append_inj ht hu (stops_chars htail hchain)
        (stops_chars htail' hchain') h
      have heq : ts = us := ih htail htail' (List.isChain_cons.1 hchain).2
        (List.isChain_cons.1 hchain').2 hrest
      rw [heq]

/-- A sign may stand between any lexemes. -/
theorem isChain_append_sign {ts us : List Lexeme} {t : Lexeme} (ht : t.isWord = false)
    (hts : List.IsChain Apart ts) (hus : List.IsChain Apart us) :
    List.IsChain Apart (ts ++ t :: us) := by
  refine List.isChain_append.2 ⟨hts, List.isChain_cons.2 ⟨fun _ _ => .inl ht, hus⟩, ?_⟩
  intro u _ v hv
  cases hv
  exact .inr ht

end Lexeme

/-! ## Expressions that can be read -/

/-- An expression that can be read when it is printed: it was built with checks, its names are
names of C, and its constants are integers, strings and null strings. -/
structure Expr.Readable (e : Expr) : Prop where
  checked : e.Checked
  names : ∀ i, Node.expr (.identifier i) ∈ e.nodes → IsName i.name
  constants : ∀ c, Node.expr (.constant c) ∈ e.nodes → c.value.datatype.declarable = true

namespace Expr

/-- Further arguments continue a chain that keeps words apart. -/
theorem isChain_append_moreLexemes {es : List Expr}
    (hes : ∀ e ∈ es, List.IsChain Lexeme.Apart e.lexemes) {ts : List Lexeme}
    (hts : List.IsChain Lexeme.Apart ts) :
    List.IsChain Lexeme.Apart (ts ++ moreLexemes es) := by
  induction es generalizing ts with
  | nil => simpa [moreLexemes] using hts
  | cons e es ih =>
    obtain ⟨he, hes⟩ := List.forall_mem_cons.1 hes
    exact Lexeme.isChain_append_sign rfl hts (ih hes he)

/-- In an expression there is a sign between any two words. -/
theorem isChain_lexemes (e : Expr) : List.IsChain Lexeme.Apart e.lexemes := by
  induction e using Expr.induct with
  | identifier i => exact .singleton _
  | constant c => exact .singleton _
  | binary id op l r ihl ihr => exact Lexeme.isChain_append_sign rfl ihl ihr
  | assign id x v ih =>
    exact Lexeme.isChain_append_sign (t := .link .assign) rfl (.singleton (.name x.name)) ih
  | addAssign id x v ih =>
    exact Lexeme.isChain_append_sign (t := .link .addAssign) rfl (.singleton (.name x.name)) ih
  | increment id x =>
    exact Lexeme.isChain_append_sign (t := .plusPlus) rfl (.singleton (.name x.name)) .nil
  | invoke id f args ih =>
    have hargs : List.IsChain Lexeme.Apart (argumentLexemes args) := by
      cases args with
      | nil => exact .nil
      | cons e es =>
        obtain ⟨he, hes⟩ := List.forall_mem_cons.1 ih
        exact isChain_append_moreLexemes hes he
    exact Lexeme.isChain_append_sign (t := .opening) rfl (.singleton (.name f.name))
      (Lexeme.isChain_append_sign (t := .closing) rfl hargs .nil)
  | hole v => exact .nil

/-- The lexemes of further arguments are commas and theirs. -/
theorem mem_moreLexemes {es : List Expr} {t : Lexeme} (h : t ∈ moreLexemes es) :
    t = .comma ∨ ∃ e ∈ es, t ∈ e.lexemes := by
  induction es with
  | nil => cases h
  | cons e es ih =>
    rw [moreLexemes, List.mem_cons, List.mem_append] at h
    rcases h with h | h | h
    · exact .inl h
    · exact .inr ⟨e, List.mem_cons_self .., h⟩
    · rcases ih h with h | ⟨e', he', h⟩
      · exact .inl h
      · exact .inr ⟨e', List.mem_cons_of_mem _ he', h⟩

/-- The lexemes of arguments are commas and theirs. -/
theorem mem_argumentLexemes {es : List Expr} {t : Lexeme} (h : t ∈ argumentLexemes es) :
    t = .comma ∨ ∃ e ∈ es, t ∈ e.lexemes := by
  cases es with
  | nil => cases h
  | cons e es =>
    rw [argumentLexemes, List.mem_append] at h
    rcases h with h | h
    · exact .inr ⟨e, List.mem_cons_self .., h⟩
    · rcases mem_moreLexemes h with h | ⟨e', he', h⟩
      · exact .inl h
      · exact .inr ⟨e', List.mem_cons_of_mem _ he', h⟩

/-- The lexemes of a readable expression are readable. -/
theorem Readable.lexemes {e : Expr} (he : e.Readable) : ∀ t ∈ e.lexemes, t.Readable := by
  obtain ⟨hchecked, hnames, hconstants⟩ := he
  induction e using Expr.induct with
  | identifier i =>
    intro t ht
    cases List.mem_singleton.1 ht
    exact hnames i (List.mem_singleton_self _)
  | constant c =>
    intro t ht
    cases List.mem_singleton.1 ht
    exact hconstants c (List.mem_singleton_self _)
  | binary id op l r ihl ihr =>
    intro t ht
    simp only [Expr.nodes, List.mem_cons, List.mem_append] at hnames hconstants
    rw [Expr.lexemes, List.mem_append, List.mem_cons] at ht
    rcases ht with ht | rfl | ht
    · exact ihl hchecked.2.1 (fun i hi => hnames i (.inr (.inl hi)))
        (fun c hc => hconstants c (.inr (.inl hc))) t ht
    · exact hchecked.1
    · exact ihr hchecked.2.2 (fun i hi => hnames i (.inr (.inr hi)))
        (fun c hc => hconstants c (.inr (.inr hc))) t ht
  | assign id x v ih | addAssign id x v ih =>
    intro t ht
    simp only [Expr.nodes, List.mem_cons] at hnames hconstants
    rw [Expr.lexemes, List.mem_cons, List.mem_cons] at ht
    rcases ht with rfl | rfl | ht
    · exact hnames x (.inr (.inl rfl))
    · trivial
    · exact ih hchecked.2 (fun i hi => hnames i (.inr (.inr hi)))
        (fun c hc => hconstants c (.inr (.inr hc))) t ht
  | increment id x =>
    intro t ht
    simp only [Expr.lexemes, List.mem_cons, List.not_mem_nil, or_false] at ht
    rcases ht with rfl | rfl
    · exact hnames x (by simp [Expr.nodes, Identifier.node])
    · trivial
  | invoke id f args ih =>
    intro t ht
    simp only [Expr.nodes, List.mem_cons, Expr.listNodes_eq_flatMap, List.mem_flatMap]
      at hnames hconstants
    simp only [Expr.lexemes, List.mem_cons, List.mem_append, List.not_mem_nil, or_false] at ht
    rcases ht with rfl | rfl | ht | rfl
    · exact hnames f (.inr (.inl rfl))
    · trivial
    · rcases mem_argumentLexemes ht with rfl | ⟨e, he, ht⟩
      · trivial
      · exact ih e he (Expr.allChecked_iff.1 hchecked.2 e he)
          (fun i hi => hnames i (.inr (.inr ⟨e, he, hi⟩)))
          (fun c hc => hconstants c (.inr (.inr ⟨e, he, hc⟩))) t ht
    · trivial
  | hole v => exact hchecked.elim

/-- Expressions have the same text exactly if they have the same lexemes. -/
theorem source_eq_iff_lexemes_eq {e e' : Expr} (he : e.Readable) (he' : e'.Readable) :
    (Node.expr e).source = (Node.expr e').source ↔ e.lexemes = e'.lexemes := by
  rw [← String.toList_inj, toList_source, toList_source]
  constructor
  · exact Lexeme.chars_injective he.lexemes he'.lexemes e.isChain_lexemes e'.isChain_lexemes
  · intro h
    rw [h]

end Expr

end Stepwise
