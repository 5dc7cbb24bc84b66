import Stepwise.Proofs.Lexemes
import Stepwise.Text.Octets
import Mathlib.Algebra.Group.Nat.Even
import Mathlib.Data.List.DropRight

/-!
# Proofs - Spellings of constants

The spelling of a constant tells which constant it is.  A string is spelled between double
quotes, with four escapes; a double quote inside the spelling is one that a backslash belongs
to, however many backslashes stand before it, and reading the escapes from left to right gives
back the string.  It makes no difference whether a spelling is made character by character or
octet by octet.

Main definitions:

- `Text.Quoted.undo?`, which undoes the four escapes and refuses all others.
- `Text.Quoted.Spells`, a text with its spelling.

Main results:

- `Text.Quoted.escape_eq_append_quote`: where the double quotes of a spelling come from.
- `Text.Quoted.octets_quote`: the octets of a spelling are the spelling of the octets.
- `spelling_unambiguous`: constants with the same spelling are the same.
-/

namespace Stepwise

namespace Text.Quoted

/-! ## Undoing the escapes -/

/-- The four escapes: the letter after the backslash and the character it stands for. -/
def escapes : List (Char × Char) :=
  [('n', '\n'), ('t', '\t'), ('"', '"'), ('\\', '\\')]

/-- Undo the four escapes from left to right.  A backslash that starts none of them is
refused. -/
def undo? : List Char → Option (List Char)
  | [] => some []
  | [c] => if c = '\\' then none else some [c]
  | c :: d :: cs =>
    if c = '\\' then do
      return (← escapes.lookup d) :: (← undo? cs)
    else
      (undo? (d :: cs)).map (c :: ·)

/-- A character is spelled by one of the escapes, or it stands for itself. -/
theorem escapeChar_cases (c : Char) :
    (∃ d, (d, c) ∈ escapes ∧ escapeChar c = ['\\', d]) ∨
      (∀ d, (d, c) ∉ escapes) ∧ escapeChar c = [c] := by
  unfold escapeChar
  split
  · exact .inl ⟨'n', by decide, rfl⟩
  · exact .inl ⟨'t', by decide, rfl⟩
  · exact .inl ⟨'"', by decide, rfl⟩
  · exact .inl ⟨'\\', by decide, rfl⟩
  · exact .inr ⟨by simp_all [escapes], rfl⟩

/-- What holds of every escape holds of the four of them. -/
theorem forall_escapes {P : Char × Char → Prop} :
    (∀ p ∈ escapes, P p) ↔ P ('n', '\n') ∧ P ('t', '\t') ∧ P ('"', '"') ∧ P ('\\', '\\') := by
  simp [escapes]

/-- The letters of the escapes differ, and a double quote is the letter of its own escape. -/
theorem escapes_spec : ∀ p ∈ escapes, escapes.lookup p.1 = some p.2 ∧ p.1 ≠ '\n' ∧ p.1 ≠ '\t' ∧
    (p.1 = '"' → p.2 = '"') :=
  forall_escapes.2 (by decide)

/-- A character that starts no escape stands for itself. -/
theorem undo?_cons_of_ne {c : Char} (hc : c ≠ '\\') (cs : List Char) :
    undo? (c :: cs) = (undo? cs).map (c :: ·) := by
  cases cs with
  | nil => simp [undo?, hc]
  | cons d ds => rw [undo?, if_neg hc]

/-- The spelling of one character is undone, and reading goes on after it. -/
theorem undo?_escapeChar_append (c : Char) (rest : List Char) :
    undo? (escapeChar c ++ rest) = (undo? rest).map (c :: ·) := by
  rcases escapeChar_cases c with ⟨d, hd, hc⟩ | ⟨hplain, hc⟩
  · have hlookup := (escapes_spec (d, c) hd).1
    rw [hc, List.cons_append, List.singleton_append, undo?, if_pos rfl, hlookup]
    cases undo? rest <;> rfl
  · have hne : c ≠ '\\' := fun h => hplain '\\' (by rw [h]; decide)
    rw [hc, List.singleton_append, undo?_cons_of_ne hne]

/-- Undoing the four escapes gives back the text. -/
theorem undo?_escape (cs : List Char) : undo? (escape cs) = some cs := by
  induction cs with
  | nil => rfl
  | cons c cs ih => rw [escape_cons, undo?_escapeChar_append, ih, Option.map_some]

/-! ## What stands between the quotes -/

/-- Escaping a text escapes its characters in turn. -/
theorem escape_eq_flatMap (cs : List Char) : escape cs = cs.flatMap escapeChar := by
  induction cs with
  | nil => rfl
  | cons c cs ih => rw [escape_cons, ih, List.flatMap_cons]

/-- Escaping texts in turn escapes the whole. -/
theorem escape_append (cs ds : List Char) : escape (cs ++ ds) = escape cs ++ escape ds := by
  simp only [escape_eq_flatMap, List.flatMap_append]

/-- A line break and a tab are never spelled as they are. -/
theorem notMem_escape {k : Char} (hk : k = '\n' ∨ k = '\t') (cs : List Char) : k ∉ escape cs := by
  rw [escape_eq_flatMap, List.mem_flatMap]
  rintro ⟨c, -, hmem⟩
  rcases escapeChar_cases c with ⟨d, hd, hc⟩ | ⟨hplain, hc⟩
  · obtain ⟨-, hline, htab, -⟩ := escapes_spec (d, c) hd
    simp only [hc, List.mem_cons, List.not_mem_nil, or_false] at hmem
    rcases hmem with rfl | rfl
    · exact absurd hk (by decide)
    · exact hk.elim hline htab
  · rw [hc, List.mem_singleton] at hmem
    subst hmem
    rcases hk with rfl | rfl
    · exact hplain 'n' (by decide)
    · exact hplain 't' (by decide)

/-- A double quote in the spelling of a character ends the spelling of a double quote. -/
theorem escapeChar_eq_append_quote {c : Char} {before after : List Char}
    (h : escapeChar c = before ++ '"' :: after) : c = '"' ∧ before = ['\\'] := by
  rcases escapeChar_cases c with ⟨d, hd, hc⟩ | ⟨hplain, hc⟩
  · obtain ⟨-, -, -, hquote⟩ := escapes_spec (d, c) hd
    rw [hc] at h
    rcases before with - | ⟨b, - | ⟨b', bs⟩⟩
    · cases h
    · cases h
      exact ⟨hquote rfl, rfl⟩
    · simp at h
  · rw [hc] at h
    rcases before with - | ⟨b, bs⟩
    · cases h
      exact absurd (by decide) (hplain '"')
    · simp at h

/-- A double quote in a spelling ends the spelling of a double quote. -/
theorem escape_eq_append_quote {cs before after : List Char}
    (h : escape cs = before ++ '"' :: after) :
    ∃ front back, cs = front ++ '"' :: back ∧ before = escape front ++ ['\\'] := by
  induction cs generalizing before with
  | nil => simp at h
  | cons c cs ih =>
    rw [escape_cons, List.append_eq_append_iff] at h
    rcases h with ⟨before', rfl, h⟩ | ⟨rest, hc, h⟩
    · obtain ⟨front, back, rfl, rfl⟩ := ih h
      exact ⟨c :: front, back, rfl, by simp⟩
    · cases rest with
      | nil =>
        have hfirst : escape cs = [] ++ '"' :: after := h.symm
        obtain ⟨front, back, -, hfront⟩ := ih hfirst
        simp at hfront
      | cons d ds =>
        cases h
        obtain ⟨rfl, rfl⟩ := escapeChar_eq_append_quote hc
        exact ⟨[], cs, rfl, rfl⟩

/-- The number of backslashes that a text ends with. -/
def trailingBackslashes (cs : List Char) : Nat :=
  (cs.rtakeWhile (· == '\\')).length

/-- A character after others ends a run of backslashes or continues it. -/
theorem trailingBackslashes_concat (cs : List Char) (c : Char) :
    trailingBackslashes (cs ++ [c]) = if c = '\\' then trailingBackslashes cs + 1 else 0 := by
  split
  · rw [trailingBackslashes, List.rtakeWhile_concat_pos _ _ _ (by simpa)]
    simp [trailingBackslashes]
  · rw [trailingBackslashes, List.rtakeWhile_concat_neg _ _ _ (by simpa)]
    rfl

/-- Backslashes come in pairs at the end of a spelling. -/
theorem even_trailingBackslashes (cs : List Char) : Even (trailingBackslashes (escape cs)) := by
  induction cs using List.reverseRecOn with
  | nil => exact ⟨0, rfl⟩
  | append_singleton cs c ih =>
    rw [escape_append, escape_cons, escape_nil, List.append_nil]
    rcases escapeChar_cases c with ⟨d, -, hc⟩ | ⟨hplain, hc⟩
    · rw [hc, List.append_cons, trailingBackslashes_concat, trailingBackslashes_concat, if_pos rfl]
      split
      · exact ih.add ⟨1, rfl⟩
      · exact ⟨0, rfl⟩
    · have hne : c ≠ '\\' := fun h => hplain '\\' (by rw [h]; decide)
      rw [hc, trailingBackslashes_concat, if_neg hne]
      exact ⟨0, rfl⟩

/-- Every double quote of a text is escaped: an odd number of backslashes stands before it, so
that one of them is left for it when they are read in pairs. -/
def QuotesEscaped (cs : List Char) : Prop :=
  ∀ before after, cs = before ++ '"' :: after → Odd (trailingBackslashes before)

/-- Every quote in an escaped text is escaped. -/
theorem quotesEscaped_escape (cs : List Char) : QuotesEscaped (escape cs) := by
  intro before after h
  obtain ⟨front, back, -, rfl⟩ := escape_eq_append_quote h
  rw [trailingBackslashes_concat, if_pos rfl]
  exact (even_trailingBackslashes front).add_one

/-- A text and its spelling, with what stands between the quotes. -/
structure Spells (spelling inside text : List Char) : Prop where
  quoted : spelling = '"' :: (inside ++ ['"'])
  noLineBreak : '\n' ∉ inside
  noTab : '\t' ∉ inside
  escaped : QuotesEscaped inside
  undone : undo? inside = some text

/-- Escaping a text between double quotes spells it. -/
theorem spells_escape (text : List Char) :
    Spells ('"' :: (escape text ++ ['"'])) (escape text) text :=
  ⟨rfl, notMem_escape (.inl rfl) text, notMem_escape (.inr rfl) text, quotesEscaped_escape text,
    undo?_escape text⟩

/-- A quoted text is its escapes between quotes. -/
theorem toList_quote (s : String) : (quote s).toList = '"' :: (escape s.toList ++ ['"']) := by
  simp [quote]

/-! ## Octets -/

/-- The octets of a character, each one as the character with its number. -/
def octetsOf (c : Char) : List Char :=
  (String.utf8EncodeChar c).map Char.ofUInt8

/-- The octets of a text, each one as the character with its number. -/
def octets (s : String) : List Char :=
  (Octets.ofText s).map Char.ofUInt8

/-- The octets of a text are those of its characters in turn. -/
theorem octets_eq_flatMap (s : String) : octets s = s.toList.flatMap octetsOf := by
  have hbytes : Octets.ofText s = s.toList.flatMap String.utf8EncodeChar := by
    rw [Octets.ofText, String.toUTF8, ← String.utf8Encode_toList, List.utf8Encode,
      List.data_toByteArray]
  rw [octets, hbytes, List.map_flatMap]
  rfl

/-- The character of an octet has its number. -/
theorem toNat_ofUInt8_ofNat (n : Nat) : (Char.ofUInt8 (UInt8.ofNat n)).toNat = n % 256 := rfl

/-- An octet of a character is the character itself, or none of those that take one octet. -/
theorem mem_octetsOf {c d : Char} (h : d ∈ octetsOf c) : d = c ∨ 128 ≤ d.toNat := by
  have hhigh : ∀ n, 128 ≤ n % 256 → d = Char.ofUInt8 (UInt8.ofNat n) → d = c ∨ 128 ≤ d.toNat := by
    rintro n hn rfl
    exact .inr hn
  simp only [octetsOf, String.utf8EncodeChar, Char.toNat_val] at h
  split_ifs at h <;> simp only [List.map_cons, List.map_nil, List.mem_cons, List.not_mem_nil,
    or_false] at h
  · left
    rw [h, ← Char.toNat_inj, toNat_ofUInt8_ofNat]
    omega
  · rcases h with h | h <;> exact hhigh _ (by omega) h
  · rcases h with h | h | h <;> exact hhigh _ (by omega) h
  · rcases h with h | h | h | h <;> exact hhigh _ (by omega) h

/-- Spelling a character and spelling its octets come to the same. -/
theorem escape_octetsOf (c : Char) : escape (octetsOf c) = (escapeChar c).flatMap octetsOf := by
  rcases escapeChar_cases c with ⟨d, hd, -⟩ | ⟨hplain, hc⟩
  · have hfour : ∀ p ∈ escapes, escape (octetsOf p.2) = (escapeChar p.2).flatMap octetsOf :=
      forall_escapes.2 (by decide)
    exact hfour (d, c) hd
  · have hself : ∀ o ∈ octetsOf c, escapeChar o = [o] := by
      intro o ho
      rcases escapeChar_cases o with ⟨d, hd, -⟩ | ⟨-, heq⟩
      · rcases mem_octetsOf ho with rfl | hhigh
        · exact absurd hd (hplain d)
        · have hlow : ∀ p ∈ escapes, p.2.toNat < 128 := forall_escapes.2 (by decide)
          exact absurd (hlow (d, o) hd) (Nat.not_lt.2 hhigh)
      · exact heq
    rw [hc, List.flatMap_singleton, escape_eq_flatMap, List.flatMap_congr hself,
      List.flatMap_singleton']

/-- Spelling a text and spelling its octets come to the same. -/
theorem escape_flatMap_octetsOf (cs : List Char) :
    escape (cs.flatMap octetsOf) = (escape cs).flatMap octetsOf := by
  induction cs with
  | nil => rfl
  | cons c cs ih =>
    rw [List.flatMap_cons, escape_append, escape_octetsOf, ih, escape_cons, List.flatMap_append]

/-- The octets of a spelling are the spelling of the octets. -/
theorem octets_quote (s : String) : octets (quote s) = '"' :: (escape (octets s) ++ ['"']) := by
  have hquote : octetsOf '"' = ['"'] := rfl
  rw [octets_eq_flatMap, toList_quote, List.flatMap_cons, List.flatMap_append,
    List.flatMap_singleton, hquote, ← escape_flatMap_octetsOf, ← octets_eq_flatMap]
  rfl

end Text.Quoted

/-! ## Constants -/

/-- Integers, strings and the null string with the same spelling are the same. -/
theorem Value.text_injective {v w : Value} (hv : v.datatype = .int ∨ v.datatype = .string)
    (hw : w.datatype = .int ∨ w.datatype = .string) (h : v.text = w.text) : v = w := by
  have hreadable : ∀ {v : Value}, v.datatype = .int ∨ v.datatype = .string →
      (Lexeme.value v).Readable := by
    rintro v (hv | hv) <;> exact (congrArg Datatype.declarable hv).trans rfl
  have hstops : Lexeme.Stops [] := by simp [Lexeme.Stops]
  obtain ⟨heq, -⟩ := Lexeme.text_append_inj (hreadable hv) (hreadable hw) (fun _ => hstops)
    (fun _ => hstops) (congrArg (·.toList ++ []) h)
  exact Lexeme.value.inj heq

open Text.Quoted in
/-- Spellings are unambiguous: integers, strings and the null string with the same spelling have
the same type and value, and a string can be read off its spelling, character by character and
octet by octet. -/
theorem spelling_unambiguous :
    (∀ c d : Constant, c.value.datatype = .int ∨ c.value.datatype = .string →
      d.value.datatype = .int ∨ d.value.datatype = .string →
      c.value.text = d.value.text → c.value.datatype = d.value.datatype ∧ c.value = d.value) ∧
    ∀ s : String, (∃ inside, Spells (Value.string s).text.toList inside s.toList) ∧
      ∃ inside, Spells (octets (Value.string s).text) inside (octets s) := by
  constructor
  · intro c d hc hd htext
    have heq := Value.text_injective hc hd htext
    exact ⟨congrArg Value.datatype heq, heq⟩
  · intro s
    rw [Value.text, toList_quote, octets_quote]
    exact ⟨⟨_, spells_escape s.toList⟩, ⟨_, spells_escape (octets s)⟩⟩

/-- A constant that holds the text `\"\n`, which looks escaped already. -/
def escapedLookalike (id : NodeId) : Constant := ⟨id, .string "\\\"\\n"⟩

open Text.Quoted in
/-- Two constants with one spelling, which is read back, and the null string, which is not spelled
like the string `NULL`. -/
theorem spelling_unambiguous_lookalikes :
    (escapedLookalike 1 ≠ escapedLookalike 2 ∧
      (escapedLookalike 1).value.text = (escapedLookalike 2).value.text ∧
      (escapedLookalike 1).value = (escapedLookalike 2).value) ∧
    Value.null.text ≠ (Value.string "NULL").text ∧
    (∃ inside, Spells (escapedLookalike 1).value.text.toList inside ['\\', '"', '\\', 'n']) := by
  obtain ⟨hsame, hread⟩ := spelling_unambiguous
  refine ⟨⟨by decide, rfl, ?_⟩, fun h => ?_, (hread _).1⟩
  · exact (hsame (escapedLookalike 1) (escapedLookalike 2) (.inr rfl) (.inr rfl) rfl).2
  · cases (hsame ⟨3, .null⟩ ⟨4, .string "NULL"⟩ (.inr rfl) (.inr rfl) h).2

end Stepwise
