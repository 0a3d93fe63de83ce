import DiceBot.Proofs.TermReading

/-!
# The grammar of dice notation

What can be read as some dice, and what as the terms of a roll, is said by two grammars that do
not mention the readers. That dice are read alone as they are read among other terms ties the
reader of a single term to the reader of many.
-/
namespace DiceBot

/-- The notation of some dice: digits, the letter and digits, maybe behind a sign. -/
def IsToken (text : String) : Prop :=
  ∃ sign ∈ ["", "+", "-"], ∃ count sides, IsDigits count ∧ IsDigits sides ∧
    text = sign ++ count ++ "d" ++ sides

/-- The notation of a roll: one or more terms with a sign between any two. -/
def IsExpression (text : String) : Prop := ∃ terms, Expresses text terms

def TermsFollow (scan : Scan) (cs : List Char) : Prop := ∃ terms, readTermsFrom scan cs = .ok terms

def DiceFollow (scan : Scan) (cs : List Char) : Prop := ∃ t, readDiceFrom scan cs = .ok t

theorem termsFollow_next {scan next : Scan} {c : Char} (hnext : scan.next? c = some next)
    (cs : List Char) : TermsFollow scan (c :: cs) ↔ TermsFollow next cs := by
  rw [TermsFollow, readTermsFrom, hnext]
  rfl

theorem termsFollow_sign {scan : Scan} {t : Term} {c : Char} {negative : Bool}
    (hterm : scan.term? = some t) (hsign : negative? c = some negative) (cs : List Char) :
    TermsFollow scan (c :: cs) ↔ TermsFollow (.signed negative) cs := by
  simp only [TermsFollow, readTermsFrom_sign hterm hsign, map_eq_ok]
  constructor
  · rintro ⟨-, later, hlater, -⟩
    exact ⟨later, hlater⟩
  · rintro ⟨later, hlater⟩
    exact ⟨_, later, hlater, rfl⟩

theorem not_termsFollow {scan : Scan} {c : Char} (hnext : scan.next? c = none)
    (hsign : ∀ t negative, scan.term? = some t → negative? c = some negative → False)
    (cs : List Char) : ¬ TermsFollow scan (c :: cs) := by
  rintro ⟨terms, hterms⟩
  rw [readTermsFrom] at hterms
  split at hterms
  · rename_i next hsome
    rw [hnext] at hsome
    cases hsome
  · rename_i t negative _ hterm hnegative
    exact hsign t negative hterm hnegative
  · cases hterms

theorem diceFollow_next {scan next : Scan} {c : Char} (hnext : scan.next? c = some next)
    (cs : List Char) : DiceFollow scan (c :: cs) ↔ DiceFollow next cs := by
  rw [DiceFollow, readDiceFrom, hnext]
  rfl

theorem not_diceFollow {scan : Scan} {c : Char} (hnext : scan.next? c = none) (cs : List Char) :
    ¬ DiceFollow scan (c :: cs) := by
  rintro ⟨t, ht⟩
  rw [readDiceFrom, hnext] at ht
  cases ht

/-- A dice term is read alone as it is read as the only one of some terms. -/
theorem readDiceFrom_eq_ok {scan : Scan} {cs : List Char} {t : DiceTerm} :
    readDiceFrom scan cs = .ok t ↔ readTermsFrom scan cs = .ok [.dice t] := by
  induction cs generalizing scan with
  | nil =>
    rw [readDiceFrom, readTermsFrom]
    cases scan <;> simp [Scan.dice?, Scan.term?]
  | cons c cs ih =>
    rw [readDiceFrom, readTermsFrom]
    cases hnext : scan.next? c with
    | some next => exact ih
    | none =>
      constructor
      · intro h
        cases h
      · intro h
        split at h
        · rename_i next hsome
          cases hsome
        · -- Another term would follow, and there is only one.
          rename_i negative _ _ _
          obtain ⟨later, hlater, hterms⟩ := map_eq_ok.mp h
          have hsigned : (Scan.signed negative).Held := trivial
          have hne := (readTermsFrom_sound hsigned hlater).1
          exact absurd (List.cons.inj hterms).2 hne
        · cases h

/-- Behind a sign, just the rest of a dice term is read. -/
theorem readDiceFrom_signed {negative : Bool} {cs : List Char} {t : DiceTerm} :
    readDiceFrom (.signed negative) cs = .ok t ↔
      t.negative = negative ∧ t.HasDigits ∧ cs = (t.count ++ "d" ++ t.sides).toList := by
  obtain ⟨c, hc⟩ : ∃ c, (signText negative).toList = [c] := by
    cases negative <;> exact ⟨_, rfl⟩
  have hsign : negative? c = some negative := negative?_eq_some.mpr hc
  have hterms : readTerms (c :: cs) = readTermsFrom (.signed negative) cs := by
    rw [readTerms, hsign]
  obtain ⟨c', hsign', htext⟩ := (Term.dice t).exists_sign
  rw [readDiceFrom_eq_ok, ← hterms, readTerms_eq_ok, writeTerms_cons, writeTerms_nil,
    String.append_empty, htext]
  constructor
  · rintro ⟨-, hd, hcs⟩
    obtain ⟨rfl, hrest⟩ := List.cons.inj hcs
    exact ⟨Option.some.inj (hsign'.symm.trans hsign), hd _ List.mem_cons_self, hrest⟩
  · rintro ⟨rfl, hd, rfl⟩
    have hsame : c = c' := by
      have hc' := negative?_eq_some.mp hsign'
      exact (List.cons.inj (hc.symm.trans hc')).1
    refine ⟨List.cons_ne_nil _ _, fun t' ht' => ?_, by rw [hsame]; rfl⟩
    rw [List.mem_singleton.mp ht']
    exact hd

private theorem diceFollow_signed {negative : Bool} {cs : List Char} :
    DiceFollow (.signed negative) cs ↔ ∃ count sides, IsDigits count ∧ IsDigits sides ∧
      cs = (count ++ "d" ++ sides).toList := by
  simp only [DiceFollow, readDiceFrom_signed]
  constructor
  · rintro ⟨t, -, ⟨hcount, hsides⟩, hcs⟩
    exact ⟨t.count, t.sides, hcount, hsides, hcs⟩
  · rintro ⟨count, sides, hcount, hsides, hcs⟩
    exact ⟨⟨negative, count, sides⟩, rfl, ⟨hcount, hsides⟩, hcs⟩

def ReadsDice (cs : List Char) : Prop := ∃ t, readDice cs = .ok t

theorem readsDice_signed {c : Char} {negative : Bool} (hsign : negative? c = some negative)
    (cs : List Char) : ReadsDice (c :: cs) ↔ DiceFollow (.signed negative) cs := by
  rw [ReadsDice, readDice, hsign]
  rfl

theorem readsDice_unsigned {c : Char} (hsign : negative? c = none) (cs : List Char) :
    ReadsDice (c :: cs) ↔ DiceFollow (.signed false) (c :: cs) := by
  rw [ReadsDice, readDice, hsign]
  rfl

theorem negative?_of_isDigit {c : Char} (hc : c.isDigit) : negative? c = none := by
  unfold negative?
  split
  · exact absurd hc (by decide)
  · exact absurd hc (by decide)
  · rfl

theorem isToken_iff {text : String} : IsToken text ↔ ReadsDice text.toList := by
  constructor
  · rintro ⟨sign, hsign, count, sides, hcount, hsides, rfl⟩
    have hfollow (negative : Bool) :
        DiceFollow (.signed negative) (count ++ "d" ++ sides).toList :=
      diceFollow_signed.mpr ⟨count, sides, hcount, hsides, rfl⟩
    rw [String.append_assoc, String.append_assoc, String.toList_append, ← String.append_assoc]
    simp only [List.mem_cons, List.not_mem_nil, or_false] at hsign
    rcases hsign with rfl | rfl | rfl
    · obtain ⟨c, rest, hchars, hc, -⟩ := hcount.exists_cons
      have hdice := hfollow false
      rw [String.append_assoc, String.toList_append, hchars] at hdice ⊢
      exact (readsDice_unsigned (negative?_of_isDigit hc) _).mpr hdice
    · exact (readsDice_signed rfl _).mpr (hfollow false)
    · exact (readsDice_signed rfl _).mpr (hfollow true)
  · intro h
    cases hchars : text.toList with
    | nil =>
      rw [hchars] at h
      obtain ⟨t, ht⟩ := h
      cases ht
    | cons c cs =>
      rw [hchars] at h
      cases hsign : negative? c with
      | some negative =>
        rw [readsDice_signed hsign, diceFollow_signed] at h
        obtain ⟨count, sides, hcount, hsides, hcs⟩ := h
        refine ⟨signText negative, by cases negative <;> simp [signText], count, sides, hcount,
          hsides, ?_⟩
        rw [← String.toList_inj, String.append_assoc, String.append_assoc,
          String.toList_append, ← String.append_assoc, negative?_eq_some.mp hsign, ← hcs, hchars]
        rfl
      | none =>
        rw [readsDice_unsigned hsign, diceFollow_signed] at h
        obtain ⟨count, sides, hcount, hsides, hcs⟩ := h
        refine ⟨"", List.mem_cons_self, count, sides, hcount, hsides, ?_⟩
        rw [← String.toList_inj, hchars, hcs, String.empty_append]

theorem isExpression_iff {text : String} :
    IsExpression text ↔ TermsFollow (.signed false) text.toList := by
  have hchars : (withSign text).toList = '+' :: text.toList := by simp [withSign]
  have hread : readTerms ('+' :: text.toList) = readTermsFrom (.signed false) text.toList := rfl
  simp only [IsExpression, expresses_iff, TermsFollow, ← hread, readTerms_eq_ok, ← hchars,
    String.toList_inj]

end DiceBot
