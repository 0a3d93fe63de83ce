import DiceBot.Proofs.ExpressionOutcomes
import DiceBot.Proofs.NotationGrammar

/-!
# One dice term, read in two ways

Dice alone are read by one reader and the terms of a roll by another. Where there is one dice term
and nothing else, they agree: on a text with a sign as it is, and on one without after the plus
sign that an expression leaves out was put before it. So an expression of one dice term is a roll
of the same dice, or the same error, and no other expression is a roll of dice alone.
-/
namespace DiceBot

def IsSigned (text : String) : Prop :=
  text.toList.head? = some '+' ∨ text.toList.head? = some '-'

instance (text : String) : Decidable (IsSigned text) := inferInstanceAs (Decidable (_ ∨ _))

private theorem negative?_isSome {c : Char} : (negative? c).isSome ↔ c = '+' ∨ c = '-' := by
  unfold negative?
  split <;> simp_all

theorem isSigned_cons {text : String} {c : Char} {rest : List Char}
    (hchars : text.toList = c :: rest) : IsSigned text ↔ (negative? c).isSome := by
  rw [IsSigned, hchars, negative?_isSome]
  simp

/-- A text with a sign is read as dice just if it is read as these dice and no other term. -/
theorem DiceTerm.ofText_of_isSigned {text : String} (h : IsSigned text) {t : DiceTerm} :
    ofText text = .ok t ↔ termsOfText text = .ok [.dice t] := by
  rw [ofText, termsOfText, mapError_eq_ok, mapError_eq_ok]
  cases hchars : text.toList with
  | nil => simp [IsSigned, hchars] at h
  | cons c rest =>
    obtain ⟨negative, hsign⟩ := Option.isSome_iff_exists.mp ((isSigned_cons hchars).mp h)
    rw [readDice, readTerms, hsign]
    exact readDiceFrom_eq_ok

/-- Without a sign, dice are read behind the plus sign that is put before an expression. -/
theorem DiceTerm.ofText_of_not_isSigned {text : String} (h : ¬ IsSigned text) {t : DiceTerm} :
    ofText text = .ok t ↔ termsOfText (withSign text) = .ok [.dice t] := by
  have hplus : (withSign text).toList = '+' :: text.toList := by simp [withSign]
  have hterms : readTerms ('+' :: text.toList) = readTermsFrom (.signed false) text.toList := rfl
  rw [ofText, termsOfText, mapError_eq_ok, mapError_eq_ok, hplus, hterms, ← readDiceFrom_eq_ok]
  cases hchars : text.toList with
  | nil => simp [readDice, readDiceFrom, Scan.dice?]
  | cons c rest =>
    have hsign : negative? c = none := by
      rw [isSigned_cons hchars] at h
      simpa using h
    rw [readDice, hsign]

def Roll.single (d : Die) (mode : Mode) : Roll :=
  ⟨[d], [], mode, by simp, by simp [maxParts], by simp⟩

/-- An expression of one dice term is the roll of its dice, if these are within their limits. -/
theorem Roll.ofText_of_single {expression : String} {t : DiceTerm}
    (h : Expresses expression [.dice t]) (mode : Mode) :
    ofText expression mode = (Die.ofTerm t).map (single · mode) := by
  have hlen : [Term.dice t].length ≤ maxParts := by simp [maxParts]
  rw [ofText_of_expresses h hlen, Part.ofTerms, Part.ofTerms, Part.ofTerm]
  cases Die.ofTerm t <;> rfl

private theorem Die.ofText_of_term {text : String} {t : DiceTerm}
    (h : DiceTerm.ofText text = .ok t) :
    ofText text = ofTerm t := by
  rw [ofText, h]
  rfl

/-- Terms with one term of dice and no modifier are only this term. -/
theorem eq_single_of_filterMap {terms : List Term} {t : DiceTerm}
    (hdice : terms.filterMap Term.dice? = [t]) (hamounts : terms.filterMap Term.amount? = []) :
    terms = [.dice t] := by
  have hlen := Term.length_filterMap terms
  rw [hdice, hamounts] at hlen
  obtain ⟨term, rfl⟩ := List.length_eq_one_iff.mp hlen.symm
  cases term with
  | dice t' => simpa [List.filterMap, Term.dice?] using hdice
  | modifier negative magnitude => cases hdice

/-- An expression of one dice term is the term without its sign, which is plus. -/
theorem expresses_single {text : String} {t : DiceTerm} : Expresses text [.dice t] ↔
    t.HasDigits ∧ t.negative = false ∧ text = (Term.dice t).unsigned := by
  constructor
  · rintro ⟨first, later, hterms, hsign, hd, rfl⟩
    obtain ⟨rfl, rfl⟩ := List.cons.inj hterms
    exact ⟨hd _ List.mem_cons_self, hsign, by simp⟩
  · rintro ⟨ht, hsign, rfl⟩
    refine ⟨.dice t, [], rfl, hsign, ?_, by simp⟩
    simpa [Term.HasDigits] using ht

/-- Only the notation of dice without a sign is an expression of dice alone. -/
theorem Roll.isToken_of_single {text : String} {mode : Mode} {r : Roll} {d : Die}
    (h : ofText text mode = .ok r) (hdice : r.dice = [d]) (hmodifiers : r.modifiers = []) :
    IsToken text := by
  obtain ⟨terms, hexpresses, hof⟩ := exists_terms_of_ofText h
  have hterms := hof.dice
  rw [hdice, List.forall₂_cons_left_iff] at hterms
  obtain ⟨t, later, -, hlater, ht⟩ := hterms
  rw [List.forall₂_nil_left_iff.mp hlater] at ht
  rw [eq_single_of_filterMap ht (hof.modifiers.symm.trans hmodifiers)] at hexpresses
  obtain ⟨⟨hcount, hsides⟩, -, rfl⟩ := expresses_single.mp hexpresses
  exact ⟨"", List.mem_cons_self, t.count, t.sides, hcount, hsides, by simp [Term.unsigned]⟩

/-- The reader of dice and the reader of terms accept the same texts of one dice term, and as the
same term. So the notation of dice without a sign is a roll of just these dice in every mode, or
is refused with the same error, and nothing else is a roll of one die without modifiers. -/
theorem readings_agree :
    (∀ text, IsSigned text → ∀ t,
      DiceTerm.ofText text = .ok t ↔ termsOfText text = .ok [.dice t]) ∧
    (∀ text, ¬ IsSigned text → ∀ t,
      DiceTerm.ofText text = .ok t ↔ termsOfText (withSign text) = .ok [.dice t]) ∧
    (∀ text, IsToken text → ¬ IsSigned text → ∀ mode,
      Roll.ofText text mode = (Die.ofText text).map (Roll.single · mode)) ∧
    ∀ text, ¬ IsToken text → ∀ mode r, Roll.ofText text mode = .ok r →
      ¬ ∃ d, r.dice = [d] ∧ r.modifiers = [] := by
  refine ⟨fun _ h _ => DiceTerm.ofText_of_isSigned h,
    fun _ h _ => DiceTerm.ofText_of_not_isSigned h, ?_, ?_⟩
  · intro text htoken hsigned mode
    obtain ⟨t, ht⟩ := isToken_iff.mp htoken
    have hread : DiceTerm.ofText text = .ok t := mapError_eq_ok.mpr ht
    have hterms := (DiceTerm.ofText_of_not_isSigned hsigned).mp hread
    have hexpresses : Expresses text [.dice t] := expresses_iff.mpr (termsOfText_eq_ok.mp hterms)
    rw [Roll.ofText_of_single hexpresses, Die.ofText_of_term hread]
  · rintro text htoken mode r hread ⟨d, hdice, hmodifiers⟩
    exact htoken (Roll.isToken_of_single hread hdice hmodifiers)

/-- A modifier of 0 keeps an expression from being dice alone. -/
theorem readings_agree_zeros :
    (IsSigned "-02d6" ∧ termsOfText "-02d6" = .ok [.dice ⟨true, "02", "6"⟩]) ∧
    (¬ IsSigned "02d6" ∧ termsOfText (withSign "02d6") = .ok [.dice ⟨false, "02", "6"⟩]) ∧
    (IsToken "02d0" ∧ ¬ IsSigned "02d0" ∧
      Roll.ofText "02d0" .advantage = .error (.outOfRange .sides "0")) ∧
    ¬ IsToken "02d6+0" ∧ ∃ r, Roll.ofText "02d6+0" .advantage = .ok r ∧
      ¬ ∃ d, r.dice = [d] ∧ r.modifiers = [] := by
  have hsigned : IsSigned "-02d6" := by decide
  have hunsigned : ¬ IsSigned "02d6" := by decide
  have hrefused : ¬ IsSigned "02d0" := by decide
  have htoken : IsToken "02d0" := isToken_iff.mpr ⟨⟨false, "02", "0"⟩, rfl⟩
  have hmore : ¬ IsToken "02d6+0" := by
    intro h
    obtain ⟨t, ht⟩ := isToken_iff.mp h
    cases ht
  have hdie : Die.ofText "02d0" = .error (.outOfRange .sides "0") := by decide +kernel
  obtain ⟨r, hr⟩ : ∃ r, Roll.ofText "02d6+0" .advantage = .ok r :=
    ⟨⟨[⟨2, 6, false, by decide, by decide⟩], [0], .advantage, by decide, by decide, by decide⟩,
      by decide +kernel⟩
  refine ⟨⟨hsigned, (readings_agree.1 _ hsigned _).mp rfl⟩,
    ⟨hunsigned, (readings_agree.2.1 _ hunsigned _).mp rfl⟩, ⟨htoken, hrefused, ?_⟩,
    hmore, r, hr, readings_agree.2.2.2 _ hmore _ r hr⟩
  rw [readings_agree.2.2.1 _ htoken hrefused, hdie]
  rfl

end DiceBot
