import DiceBot.Proofs.LineTexts
import DiceBot.Proofs.SingleTerms
import DiceBot.Proofs.WrittenRolls

/-!
# The notation of dice

Dice are read from a sign or none, digits, the letter and digits, where the digits denote numbers
within the limits. Many texts are read as the same dice, because a plus sign and zeros in front of
a number make no difference. What the dice are written as is the one text that has neither.
-/
namespace DiceBot

namespace DiceTerm

variable {text : String} {t : DiceTerm}

private theorem isSigned_text (t : DiceTerm) : IsSigned t.text := by
  obtain ⟨c, hsign, hchars⟩ := (Term.dice t).exists_sign
  exact (isSigned_cons hchars).mpr (by rw [hsign]; rfl)

private theorem not_isSigned_unsigned (ht : t.HasDigits) : ¬ IsSigned (Term.dice t).unsigned := by
  obtain ⟨c, rest, hchars, hc, -⟩ := ht.1.exists_cons
  have hunsigned : (Term.dice t).unsigned.toList = c :: (rest ++ ("d" ++ t.sides).toList) := by
    simp [Term.unsigned, hchars]
  rw [isSigned_cons hunsigned, negative?_of_isDigit hc]
  exact Bool.false_ne_true

private theorem termsOfText_eq_single :
    termsOfText text = .ok [.dice t] ↔ t.HasDigits ∧ text = t.text := by
  rw [termsOfText_eq_ok, writeTerms_cons, writeTerms_nil, String.append_empty, Term.text]
  simp [Term.HasDigits]

/-- Dice are read from their term as it is written, with the sign or without a plus sign. -/
theorem ofText_eq_ok : ofText text = .ok t ↔
    t.HasDigits ∧ (text = t.text ∨ t.negative = false ∧ text = (Term.dice t).unsigned) := by
  by_cases hsigned : IsSigned text
  · rw [ofText_of_isSigned hsigned, termsOfText_eq_single]
    refine and_congr_right fun ht => (or_iff_left ?_).symm
    rintro ⟨-, rfl⟩
    exact not_isSigned_unsigned ht hsigned
  · rw [ofText_of_not_isSigned hsigned, termsOfText_eq_ok, ← expresses_iff, expresses_single]
    refine and_congr_right fun ht => (or_iff_right ?_).symm
    rintro rfl
    exact hsigned t.isSigned_text

end DiceTerm

/-- The text has these parts: a sign or none, digits, the letter, and digits. -/
structure IsTokenOf (text sign count sides : String) : Prop where
  sign_mem : sign = "" ∨ sign = "+" ∨ sign = "-"
  count_digits : IsDigits count
  sides_digits : IsDigits sides
  text_eq : text = sign ++ count ++ "d" ++ sides

namespace IsTokenOf

variable {text sign count sides : String}

theorem ofText_eq_ok {t : DiceTerm} : DiceTerm.ofText text = .ok t ↔
    ∃ sign, IsTokenOf text sign t.count t.sides ∧ t.negative = decide (sign = "-") := by
  rw [DiceTerm.ofText_eq_ok]
  constructor
  · rintro ⟨ht, rfl | ⟨hsign, rfl⟩⟩
    · refine ⟨signText t.negative, ⟨?_, ht.1, ht.2, rfl⟩, ?_⟩
      · cases t.negative <;> simp [signText]
      · cases t.negative <;> rfl
    · exact ⟨"", ⟨.inl rfl, ht.1, ht.2, by simp [Term.unsigned]⟩, hsign⟩
  · rintro ⟨sign, ⟨hsign, hcount, hsides, rfl⟩, hnegative⟩
    refine ⟨⟨hcount, hsides⟩, ?_⟩
    rcases hsign with rfl | rfl | rfl
    · exact .inr ⟨hnegative, by simp [Term.unsigned]⟩
    · exact .inl (by rw [DiceTerm.text, hnegative]; rfl)
    · exact .inl (by rw [DiceTerm.text, hnegative]; rfl)

theorem ofText (h : IsTokenOf text sign count sides) :
    DiceTerm.ofText text = .ok ⟨sign = "-", count, sides⟩ :=
  ofText_eq_ok.mpr ⟨sign, h, rfl⟩

/-- Digits around the letter are found in one way only. -/
theorem unique {sign' count' sides' : String} (h : IsTokenOf text sign count sides)
    (h' : IsTokenOf text sign' count' sides') : count = count' ∧ sides = sides' := by
  have hterm := h.ofText
  rw [h'.ofText, Except.ok.injEq, DiceTerm.mk.injEq] at hterm
  exact ⟨hterm.2.1.symm, hterm.2.2.symm⟩

private theorem lacks_plus_iff (h : IsTokenOf text sign count sides) :
    Lacks '+' text ↔ sign ≠ "+" := by
  obtain ⟨hsign, hcount, hsides, rfl⟩ := h
  have hrest : Lacks '+' (count ++ "d" ++ sides) :=
    ((hcount.lacks (by decide)).append (by decide)).append (hsides.lacks (by decide))
  have htext : sign ++ count ++ "d" ++ sides = sign ++ (count ++ "d" ++ sides) := by
    simp only [String.append_assoc]
  rw [htext]
  rcases hsign with rfl | rfl | rfl
  · simpa using hrest
  · simp [Lacks]
  · have hminus : Lacks '+' "-" := by decide
    simpa using hminus.append hrest

end IsTokenOf

namespace Die

variable {text : String} {d : Die}

/-- A term is read as the die that has its numbers, if there is one. -/
theorem ofTerm_eq_ok {t : DiceTerm} (ht : t.HasDigits) : ofTerm t = .ok d ↔ d.IsOf t := by
  constructor
  · intro h
    cases hq : firstRefused? (Term.dice t).quantities with
    | some q =>
      obtain ⟨value, hvalue⟩ := ofTerm_refused ht hq
      rw [h] at hvalue
      cases hvalue
    | none =>
      rw [firstRefused?_eq_none] at hq
      obtain ⟨hc, hs⟩ : Limit.dice.Admits (decimal t.count) ∧
          Limit.sides.Admits (decimal t.sides) := by
        simpa [Term.quantities] using hq
      obtain ⟨d', hd', hof⟩ := ofTerm_admitted ht hc hs
      rw [h] at hd'
      cases hd'
      exact hof
  · intro h
    have hc := d.count_admitted
    have hs := d.sides_admitted
    rw [h.count] at hc
    rw [h.sides] at hs
    obtain ⟨d', hd', hof⟩ := ofTerm_admitted ht hc hs
    rw [hd', h.unique hof]

theorem ofText_eq_ok : ofText text = .ok d ↔ ∃ t, DiceTerm.ofText text = .ok t ∧ d.IsOf t := by
  rw [ofText, bind_eq_ok]
  constructor
  · rintro ⟨t, hread, hd⟩
    have ht := mapError_eq_ok.mp hread
    exact ⟨t, ht, (ofTerm_eq_ok (DiceTerm.ofText_eq_ok.mp ht).1).mp hd⟩
  · rintro ⟨t, ht, hd⟩
    exact ⟨t, mapError_eq_ok.mpr ht, (ofTerm_eq_ok (DiceTerm.ofText_eq_ok.mp ht).1).mpr hd⟩

theorem ofText_eq_ok_of_isTokenOf {sign count sides : String}
    (h : IsTokenOf text sign count sides) :
    ofText text = .ok d ↔ d.IsOf ⟨sign = "-", count, sides⟩ := by
  rw [ofText_eq_ok, h.ofText]
  simp

theorem isTokenOf_text (d : Die) :
    IsTokenOf d.text (if d.negative then "-" else "") (toString d.count) (toString d.sides) := by
  refine ⟨?_, isDigits_toString _, isDigits_toString _, rfl⟩
  cases d.negative <;> simp

theorem ofText_of_text (d : Die) : ofText d.text = .ok d := by
  have hterm : DiceTerm.ofText d.text = .ok d.term := by
    refine IsTokenOf.ofText_eq_ok.mpr ⟨_, d.isTokenOf_text, ?_⟩
    rw [term]
    cases d.negative <;> rfl
  exact ofText_eq_ok.mpr ⟨d.term, hterm, d.isOf_term⟩

/-- The notation of dice is how the die is written that it is read as, just if it has no plus sign
and its numbers do not begin with a zero. -/
theorem text_eq_iff {sign count sides : String} (h : IsTokenOf text sign count sides)
    (hof : d.IsOf ⟨sign = "-", count, sides⟩) :
    d.text = text ↔
      '+' ∉ text.toList ∧ count.toList.head? ≠ some '0' ∧ sides.toList.head? ≠ some '0' := by
  have hcount : d.count = decimal count := hof.count
  have hsides : d.sides = decimal sides := hof.sides
  have hcount' : toString d.count = count ↔ count.toList.head? ≠ some '0' := by
    have hpos := hcount ▸ d.count_bounds.1
    rw [hcount, toString_decimal_of_pos h.count_digits hpos]
  have hsides' : toString d.sides = sides ↔ sides.toList.head? ≠ some '0' := by
    have hpos := hsides ▸ d.sides_bounds.1
    rw [hsides, toString_decimal_of_pos h.sides_digits (by omega)]
  have hplus : '+' ∉ text.toList ↔ sign ≠ "+" := h.lacks_plus_iff
  rw [← hcount', ← hsides', hplus]
  constructor
  · intro htext
    have hself := d.isTokenOf_text
    rw [htext] at hself
    refine ⟨h.lacks_plus_iff.mp (hself.lacks_plus_iff.mpr ?_), hself.unique h⟩
    cases d.negative <;> decide
  · rintro ⟨hsign, hc, hs⟩
    have hnegative : d.negative = decide (sign = "-") := hof.negative
    rw [Die.text, h.text_eq, hc, hs, hnegative]
    rcases h.sign_mem with rfl | rfl | rfl
    · rfl
    · exact absurd rfl hsign
    · rfl

/-- Dice are read from their notation and from nothing else: a sign or none, digits of a number
between 1 and 100, the letter, and digits of a number between 2 and 1000. What a die is written as
is read as the die, and of all texts that are read as it this is the one without a plus sign and
without zeros in front of a number. -/
theorem ofText_token :
    (∀ text d, ofText text = .ok d ↔ ∃ sign count sides, IsTokenOf text sign count sides ∧
      (d.count = decimal count ∧ 1 ≤ decimal count ∧ decimal count ≤ 100) ∧
      (d.sides = decimal sides ∧ 2 ≤ decimal sides ∧ decimal sides ≤ 1000) ∧
      (d.negative = true ↔ sign = "-")) ∧
    (∀ d : Die, ofText d.text = .ok d) ∧
    ∀ text d, ofText text = .ok d → ∀ sign count sides, IsTokenOf text sign count sides →
      (d.text = text ↔
        '+' ∉ text.toList ∧ count.toList.head? ≠ some '0' ∧ sides.toList.head? ≠ some '0') := by
  refine ⟨fun text d => ?_, ofText_of_text, fun text d hread sign count sides h => ?_⟩
  · constructor
    · intro hread
      obtain ⟨t, ht, hof⟩ := ofText_eq_ok.mp hread
      obtain ⟨sign, h, hsign⟩ := IsTokenOf.ofText_eq_ok.mp ht
      have hcount := d.count_bounds
      have hsides := d.sides_bounds
      rw [hof.count] at hcount
      rw [hof.sides] at hsides
      refine ⟨sign, t.count, t.sides, h, ⟨hof.count, hcount⟩, ⟨hof.sides, hsides⟩, ?_⟩
      rw [hof.negative, hsign, decide_eq_true_iff]
    · rintro ⟨sign, count, sides, h, ⟨hcount, -⟩, ⟨hsides, -⟩, hsign⟩
      refine (ofText_eq_ok_of_isTokenOf h).mpr ⟨hcount, hsides, ?_⟩
      rw [Bool.eq_iff_iff, hsign, decide_eq_true_iff]
  · exact text_eq_iff h ((ofText_eq_ok_of_isTokenOf h).mp hread)

theorem ofText_token_zeros : ∃ d, ofText "-007d20" = .ok d ∧
    IsTokenOf "-007d20" "-" "007" "20" ∧ d.text = "-7d20" ∧ d.text ≠ "-007d20" := by
  have hread : ofText "-007d20" = .ok ⟨7, 20, true, by decide, by decide⟩ := by decide +kernel
  have htoken : IsTokenOf "-007d20" "-" "007" "20" :=
    ⟨by decide, ⟨by decide, by decide⟩, ⟨by decide, by decide⟩, by decide⟩
  have hzero : ¬ ('+' ∉ "-007d20".toList ∧ "007".toList.head? ≠ some '0' ∧
      "20".toList.head? ≠ some '0') := by
    decide
  exact ⟨_, hread, htoken, by decide +kernel,
    mt (ofText_token.2.2 _ _ hread _ _ _ htoken).mp hzero⟩

end Die

end DiceBot
