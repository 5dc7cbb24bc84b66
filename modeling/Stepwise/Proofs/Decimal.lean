import Stepwise.Yaml.Conversion
import Mathlib.Tactic.IntervalCases

/-!
# Proofs - Decimal spellings

An integer of 64 bits that is written in decimal digits means that integer: no leading zero
calls for another base, no word is spelled like a number, and nothing is out of range.

Main results:

- `Number.Literal.integer?_toString`: decimal digits are read as the integer they stand for.
- `Yaml.Node.toInt64_decimal`: so is a scalar that is tagged as an integer.
-/

namespace Stepwise

namespace Number

/-! ## Digits -/

/-- A character of a digit is read as that digit. -/
theorem digit?_digitChar {d : Nat} (h : d < 10) : digit? (Nat.digitChar d) = some d := by
  interval_cases d <;> rfl

/-- The decimal digits of a number are read as the number. -/
theorem digits?_toDigits (n : Nat) : digits? 10 (Nat.toDigits 10 n) = some n := by
  induction n using Nat.strongRecOn with
  | _ n ih =>
    rcases Nat.lt_or_ge n 10 with hn | hn
    · rw [Nat.toDigits_of_lt_base hn]
      simp [digits?, digit?_digitChar hn, hn]
    · have hlast : n % 10 < 10 := Nat.mod_lt n (by decide)
      have hrest := ih (n / 10) (by omega)
      unfold digits? at hrest ⊢
      rw [Nat.toDigits_of_base_le (by decide) hn, List.foldlM_append, hrest]
      simp only [Option.bind_eq_bind, Option.bind_some, List.foldlM_cons, List.foldlM_nil,
        digit?_digitChar hlast, hlast, if_true, Option.pure_def, Option.some.injEq]
      omega

/-- The first decimal digit of a number; it is zero for zero only. -/
theorem toDigits_eq_cons (n : Nat) :
    ∃ d rest, d < 10 ∧ (0 < n → 0 < d) ∧ Nat.toDigits 10 n = Nat.digitChar d :: rest := by
  induction n using Nat.strongRecOn with
  | _ n ih =>
    rcases Nat.lt_or_ge n 10 with hn | hn
    · exact ⟨n, [], hn, id, Nat.toDigits_of_lt_base hn⟩
    · obtain ⟨d, rest, hlt, hpos, hrest⟩ := ih (n / 10) (by omega)
      refine ⟨d, rest ++ [Nat.digitChar (n % 10)], hlt, fun _ => hpos (by omega), ?_⟩
      rw [Nat.toDigits_of_base_le (by decide) hn, hrest, List.cons_append]

/-- The characters of an integer. -/
theorem toList_toString (n : Int) :
    0 ≤ n ∧ (toString n).toList = Nat.toDigits 10 n.natAbs ∨
      n < 0 ∧ (toString n).toList = '-' :: Nat.toDigits 10 n.natAbs := by
  rw [Int.toString_eq_repr, Int.repr_eq_if]
  rcases lt_or_ge n 0 with hn | hn
  · have habs : (-n).toNat = n.natAbs := by omega
    rw [if_neg (by omega), habs]
    exact .inr ⟨hn, by simp⟩
  · have habs : n.toNat = n.natAbs := by omega
    rw [if_pos hn, habs]
    exact .inl ⟨hn, by simp⟩

namespace Literal

/-- Digits that do not start with a zero are decimal. -/
theorem natural?_toDigits (n : Nat) : natural? (Nat.toDigits 10 n) = some n := by
  rcases Nat.eq_zero_or_pos n with rfl | hn
  · rfl
  · obtain ⟨d, rest, hlt, hpos, hdigits⟩ := toDigits_eq_cons n
    have hread := digits?_toDigits n
    have hd := hpos hn
    rw [hdigits] at hread ⊢
    interval_cases d <;> exact hread

/-- Digits have no sign before them. -/
theorem sign_toDigits (n : Nat) : sign (Nat.toDigits 10 n) = (false, Nat.toDigits 10 n) := by
  obtain ⟨d, rest, hlt, -, hdigits⟩ := toDigits_eq_cons n
  rw [hdigits]
  interval_cases d <;> rfl

/-- The decimal digits of an integer are read as the integer. -/
theorem integer?_toString (n : Int) : integer? (toString n).toList = some n := by
  rcases toList_toString n with ⟨hn, hlist⟩ | ⟨hn, hlist⟩
  · rw [hlist]
    simp only [integer?, sign_toDigits, natural?_toDigits, Option.map_some, signed]
    rw [if_neg Bool.false_ne_true, Int.natAbs_of_nonneg hn]
  · rw [hlist]
    simp only [integer?, sign, natural?_toDigits, Option.map_some, signed]
    rw [if_pos trivial, Int.ofNat_natAbs_of_nonpos (Int.le_of_lt hn), Int.neg_neg]

end Literal

end Number

/-! ## Scalars -/

namespace Yaml

open Number

namespace Meaning

/-- No word is spelled like a number. -/
theorem word?_toString (n : Int) : word? (toString n) = none := by
  obtain ⟨d, rest, hlt, -, hdigits⟩ := toDigits_eq_cons n.natAbs
  rcases toList_toString n with ⟨-, hlist⟩ | ⟨-, hlist⟩ <;>
  · rw [hdigits] at hlist
    simp only [word?, List.mem_cons, List.not_mem_nil, ← String.toList_inj, hlist]
    interval_cases d <;> simp

/-- The decimal of a word is read as an integer. -/
theorem number?_toString {n : Int} (h : fitsInt64 n = true) :
    number? (toString n) = some (.integer n) := by
  have hplain : (toString n).toList.filter (· != '_') = (toString n).toList := by
    have hdigits : '_' ∉ Nat.toDigits 10 n.natAbs := Nat.underscore_not_in_toDigits
    have hchars : '_' ∉ (toString n).toList := by
      rcases toList_toString n with ⟨-, hlist⟩ | ⟨-, hlist⟩ <;>
      · rw [hlist]
        simp [hdigits]
    rw [List.filter_eq_self]
    intro c hc
    rw [bne_iff_ne]
    rintro rfl
    exact hchars hc
  simp only [number?, hplain, Literal.integer?_toString, Option.filter_some, h, if_true]

/-- A plain scalar that spells a word means that integer. -/
theorem ofSpelling_toString {n : Int} (h : fitsInt64 n = true) :
    ofSpelling false (toString n) = .integer n := by
  obtain ⟨d, rest, hlt, -, hdigits⟩ := toDigits_eq_cons n.natAbs
  unfold ofSpelling
  rw [word?_toString, number?_toString h]
  rcases toList_toString n with ⟨-, hlist⟩ | ⟨-, hlist⟩ <;>
  · rw [hdigits] at hlist
    rw [hlist]
    interval_cases d <;> rfl

/-- The tag of integers is its own short form. -/
theorem shortTag_int : shortTag "!!int" = "!!int" := by
  decide

/-- A scalar tagged as an integer means the integer it spells. -/
theorem ofTagged?_toString {n : Int} (h : fitsInt64 n = true) :
    ofTagged? "!!int" (toString n) = some (.integer n) := by
  have hdated : ("!!int" == "!!timestamp") = false := by decide
  unfold ofTagged?
  rw [if_neg (by decide), hdated, ofSpelling_toString h]
  rfl

end Meaning

/-- A scalar that is tagged as an integer and holds the decimal digits of an integer of 64 bits
is read as that integer. -/
theorem Node.toInt64_decimal (line : Nat) (v : Int64) :
    (scalar line "!!int" (toString v.toInt)).toInt64 = .ok v := by
  have hfits : fitsInt64 v.toInt = true := by
    have hle := v.le_toInt
    have hlt := v.toInt_lt
    have hbound : (int64Bound : Int) = 2 ^ 63 := rfl
    simp only [fitsInt64, hbound, Bool.and_eq_true, decide_eq_true_eq]
    exact ⟨hle, hlt⟩
  have hmeaning : meaning "!!int" (toString v.toInt) = .ok (.integer v.toInt) := by
    rw [meaning, Meaning.shortTag_int]
    simp only [Meaning.ofTagged?_toString hfits]
  have htag : isBinary "!!int" = false := by
    rw [isBinary, Meaning.shortTag_int]
    decide
  simp only [toInt64, followed, htag, Bool.false_and, Bool.false_eq_true, if_false, hmeaning,
    bind, Except.bind, hfits, if_true, Int64.ofInt_toInt]
  rfl

/-- The reader of integers reads back the decimal of every word. -/
theorem Node.readInt_decimal (line : Nat) (v : Int64) :
    readInt (scalar line "!!int" (toString v.toInt)) = .ok v := by
  rw [readInt, Node.toInt64_decimal]
  rfl

end Yaml

end Stepwise
