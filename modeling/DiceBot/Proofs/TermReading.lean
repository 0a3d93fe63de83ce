import DiceBot.Proofs.FallibleSteps
import DiceBot.Proofs.NumeralReading
import DiceBot.TermScanning

/-!
# Reading terms undoes writing them

The part of a term that has been read is a text, and every character read is put
behind it. So what a reading accepts is what the terms it gives are written as, and
conversely every written sequence of terms is read back. The statements are about
the digits as they are written; which numbers they stand for plays no part here.
-/
namespace DiceBot

/-- A term can be written only if it has digits in every place. -/
def DiceTerm.HasDigits (t : DiceTerm) : Prop := IsDigits t.count ∧ IsDigits t.sides

namespace Term

def HasDigits : Term → Prop
  | .dice t => t.HasDigits
  | .modifier _ magnitude => IsDigits magnitude

def negative : Term → Bool
  | .dice t => t.negative
  | .modifier negative _ => negative

def unsigned : Term → String
  | .dice t => t.count ++ "d" ++ t.sides
  | .modifier _ magnitude => magnitude

theorem text_eq (t : Term) : t.text = signText t.negative ++ t.unsigned := by
  cases t with
  | dice t => simp only [text, DiceTerm.text, negative, unsigned, String.append_assoc]
  | modifier negative magnitude => rfl

end Term

@[simp] theorem writeTerms_nil : writeTerms [] = "" := rfl

@[simp] theorem writeTerms_cons (t : Term) (ts : List Term) :
    writeTerms (t :: ts) = t.text ++ writeTerms ts := by
  simp [writeTerms]

theorem negative?_eq_some {c : Char} {negative : Bool} :
    negative? c = some negative ↔ (signText negative).toList = [c] := by
  unfold negative?
  split
  · cases negative <;> simp [signText]
  · cases negative <;> simp [signText]
  · rename_i hplus hminus
    cases negative <;> simp [signText] <;> intro h
    · exact hplus h.symm
    · exact hminus h.symm

/-- A term is written as one sign and, behind it, the rest of the term. -/
theorem Term.exists_sign (t : Term) :
    ∃ c, negative? c = some t.negative ∧ t.text.toList = c :: t.unsigned.toList := by
  obtain ⟨c, hc⟩ : ∃ c, (signText t.negative).toList = [c] := by
    cases t.negative <;> exact ⟨_, rfl⟩
  exact ⟨c, negative?_eq_some.mpr hc, by rw [t.text_eq, String.toList_append, hc]; rfl⟩

namespace Scan

def text : Scan → String
  | .signed negative => signText negative
  | .magnitude negative digits => signText negative ++ digits
  | .letter negative count => signText negative ++ count ++ "d"
  | .sides negative count digits => signText negative ++ count ++ "d" ++ digits

/-- The digits that are held are one or more in each place. -/
def Held : Scan → Prop
  | .signed _ => True
  | .magnitude _ digits => IsDigits digits
  | .letter _ count => IsDigits count
  | .sides _ count digits => IsDigits count ∧ IsDigits digits

private theorem next?_eq_some {scan scan' : Scan} {c : Char} (h : scan.next? c = some scan')
    (hs : scan.Held) : scan'.Held ∧ scan'.text = scan.text.push c := by
  cases scan with
  | signed negative =>
    obtain ⟨hc, rfl⟩ : c.isDigit ∧ _ = scan' := by simpa [next?] using h
    exact ⟨isDigits_push_empty hc, by simp [text]⟩
  | magnitude negative digits =>
    simp only [next?] at h
    split at h
    · cases h
      exact ⟨hs.push ‹_›, by simp [text, ← String.toList_inj]⟩
    · obtain ⟨rfl, rfl⟩ : c = 'd' ∧ _ = scan' := by simpa using h
      exact ⟨hs, by simp [text, ← String.toList_inj]⟩
  | letter negative count =>
    obtain ⟨hc, rfl⟩ : c.isDigit ∧ _ = scan' := by simpa [next?] using h
    exact ⟨⟨hs, isDigits_push_empty hc⟩, by simp [text]⟩
  | sides negative count digits =>
    obtain ⟨hc, rfl⟩ : c.isDigit ∧ _ = scan' := by simpa [next?] using h
    exact ⟨⟨hs.1, hs.2.push hc⟩, by simp [text, ← String.toList_inj]⟩

private theorem term?_eq_some {scan : Scan} {t : Term} (h : scan.term? = some t) (hs : scan.Held) :
    t.HasDigits ∧ t.text = scan.text := by
  cases scan with
  | signed negative => cases h
  | magnitude negative digits => cases h; exact ⟨hs, rfl⟩
  | letter negative count => cases h
  | sides negative count digits => cases h; exact ⟨hs, rfl⟩

/-- A state from which a digit leads to a state that holds it, and on from there, takes
every run of digits as a whole. -/
private theorem foldlM_run {first : Scan} {state : String → Scan}
    (hfirst : ∀ c, c.isDigit → first.next? c = some (state ("".push c)))
    (hstate : ∀ held c, c.isDigit → (state held).next? c = some (state (held.push c)))
    {digits : String} (hd : IsDigits digits) :
    digits.toList.foldlM next? first = some (state digits) := by
  have hlater (rest : List Char) (held : String) (hall : rest.all Char.isDigit) :
      rest.foldlM next? (state held) = some (state (held ++ String.ofList rest)) := by
    induction rest generalizing held with
    | nil => simp
    | cons c rest ih =>
      rw [List.all_cons, Bool.and_eq_true] at hall
      have htext : held ++ String.ofList (c :: rest) = held.push c ++ String.ofList rest := by
        simp [← String.toList_inj]
      rw [List.foldlM_cons, hstate held c hall.1, htext]
      exact ih (held.push c) hall.2
  obtain ⟨c, rest, hcs, hc, hrest⟩ := hd.exists_cons
  have htext : "".push c ++ String.ofList rest = digits := by simp [← String.toList_inj, hcs]
  rw [hcs, List.foldlM_cons, hfirst c hc]
  exact htext ▸ hlater rest ("".push c) hrest

private theorem foldlM_magnitude (negative : Bool) {digits : String} (hd : IsDigits digits) :
    digits.toList.foldlM next? (.signed negative) = some (.magnitude negative digits) :=
  foldlM_run (by simp +contextual [next?]) (by simp +contextual [next?]) hd

private theorem foldlM_sides (negative : Bool) (count : String) {digits : String}
    (hd : IsDigits digits) :
    digits.toList.foldlM next? (.letter negative count) = some (.sides negative count digits) :=
  foldlM_run (by simp +contextual [next?]) (by simp +contextual [next?]) hd

/-- Behind its sign, a written term leads to the state in which it is complete. -/
theorem exists_foldlM_unsigned {t : Term} (ht : t.HasDigits) :
    ∃ scan, t.unsigned.toList.foldlM next? (.signed t.negative) = some scan ∧
      scan.term? = some t := by
  cases t with
  | dice t =>
    refine ⟨.sides t.negative t.count t.sides, ?_, rfl⟩
    have hletter : next? (.magnitude t.negative t.count) 'd' = some (.letter t.negative t.count) :=
      rfl
    simp only [Term.unsigned, Term.negative, String.toList_append, List.foldlM_append,
      foldlM_magnitude t.negative ht.1]
    simpa [hletter] using foldlM_sides t.negative t.count ht.2
  | modifier negative magnitude =>
    exact ⟨.magnitude negative magnitude, foldlM_magnitude negative ht, rfl⟩

/-- No sign belongs to the term before it. -/
theorem next?_sign (scan : Scan) {c : Char} {negative : Bool} (h : negative? c = some negative) :
    scan.next? c = none := by
  unfold negative? at h
  split at h
  · cases scan <;> rfl
  · cases scan <;> rfl
  · cases h

end Scan

private theorem readTermsFrom_append {scan scan' : Scan} {cs : List Char}
    (h : cs.foldlM Scan.next? scan = some scan') (rest : List Char) :
    readTermsFrom scan (cs ++ rest) = readTermsFrom scan' rest := by
  induction cs generalizing scan with
  | nil =>
    cases h
    rfl
  | cons c cs ih =>
    obtain ⟨next, hnext, hcs⟩ : ∃ next, scan.next? c = some next ∧
        cs.foldlM Scan.next? next = some scan' := by
      simpa [Option.bind_eq_some_iff] using h
    rw [List.cons_append, readTermsFrom, hnext]
    exact ih hcs

/-- What a reading accepts is what its terms are written as. -/
theorem readTermsFrom_sound {scan : Scan} {cs : List Char} {terms : List Term} (hs : scan.Held)
    (h : readTermsFrom scan cs = .ok terms) :
    terms ≠ [] ∧ (∀ t ∈ terms, t.HasDigits) ∧
      (writeTerms terms).toList = scan.text.toList ++ cs := by
  fun_induction readTermsFrom scan cs generalizing terms with
  | case1 scan t hterm =>
    cases h
    obtain ⟨hd, htext⟩ := Scan.term?_eq_some hterm hs
    exact ⟨by simp, by simpa using hd, by simp [htext]⟩
  | case2 scan hterm => cases h
  | case3 scan c rest next hnext ih =>
    obtain ⟨hheld, htext⟩ := Scan.next?_eq_some hnext hs
    obtain ⟨hne, hd, hw⟩ := ih hheld h
    exact ⟨hne, hd, by simp [hw, htext]⟩
  | case4 scan c rest t negative hsign hterm hnext ih =>
    obtain ⟨later, hlater, rfl⟩ := map_eq_ok.mp h
    obtain ⟨hd, htext⟩ := Scan.term?_eq_some hterm hs
    obtain ⟨hne, hds, hw⟩ := ih trivial hlater
    refine ⟨by simp, by simpa using ⟨hd, hds⟩, ?_⟩
    simp [hw, htext, Scan.text, negative?_eq_some.mp hsign]
  | case5 => cases h

/-- A sign behind a complete term begins the next one. -/
theorem readTermsFrom_sign {scan : Scan} {t : Term} (hterm : scan.term? = some t) {c : Char}
    {negative : Bool} (hsign : negative? c = some negative) (rest : List Char) :
    readTermsFrom scan (c :: rest) = (readTermsFrom (.signed negative) rest).map (t :: ·) := by
  simp only [readTermsFrom, Scan.next?_sign scan hsign, hterm, hsign]

/-- Behind its sign, a term is read as it is written, and so are the terms that follow. -/
theorem readTermsFrom_signed {t : Term} (ht : t.HasDigits) {later : List Term}
    (hlater : ∀ t ∈ later, t.HasDigits) :
    readTermsFrom (.signed t.negative) (t.unsigned.toList ++ (writeTerms later).toList) =
      .ok (t :: later) := by
  obtain ⟨scan, hrun, hterm⟩ := Scan.exists_foldlM_unsigned ht
  rw [readTermsFrom_append hrun]
  induction later generalizing t scan with
  | nil => simp [readTermsFrom, hterm]
  | cons t' later ih =>
    obtain ⟨c, hsign, htext⟩ := t'.exists_sign
    obtain ⟨scan', hrun', hterm'⟩ := Scan.exists_foldlM_unsigned (hlater t' (by simp))
    rw [writeTerms_cons, String.toList_append, htext, List.cons_append,
      readTermsFrom_sign hterm hsign, readTermsFrom_append hrun',
      ih (hlater t' (by simp)) (fun t ht => hlater t (List.mem_cons_of_mem _ ht)) scan' hrun'
        hterm']
    rfl

/-- Exactly the written forms of terms are read, and as these terms. -/
theorem readTerms_eq_ok {cs : List Char} {terms : List Term} :
    readTerms cs = .ok terms ↔
      terms ≠ [] ∧ (∀ t ∈ terms, t.HasDigits) ∧ cs = (writeTerms terms).toList := by
  constructor
  · intro h
    cases cs with
    | nil => cases h
    | cons c rest =>
      rw [readTerms] at h
      split at h
      · rename_i negative hsign
        have hs : (Scan.signed negative).Held := trivial
        obtain ⟨hne, hd, hw⟩ := readTermsFrom_sound hs h
        exact ⟨hne, hd, by simp [hw, Scan.text, negative?_eq_some.mp hsign]⟩
      · cases h
  · rintro ⟨hne, hd, rfl⟩
    obtain ⟨t, later, rfl⟩ := List.exists_cons_of_ne_nil hne
    obtain ⟨c, hsign, htext⟩ := t.exists_sign
    rw [writeTerms_cons, String.toList_append, htext, List.cons_append, readTerms, hsign]
    exact readTermsFrom_signed (hd t (by simp)) fun t ht => hd t (List.mem_cons_of_mem _ ht)

theorem termsOfText_eq_ok {text : String} {terms : List Term} :
    termsOfText text = .ok terms ↔
      terms ≠ [] ∧ (∀ t ∈ terms, t.HasDigits) ∧ text = writeTerms terms := by
  rw [termsOfText, mapError_eq_ok, readTerms_eq_ok, String.toList_inj]

private theorem writeTerms_ne_empty {terms : List Term} (hne : terms ≠ []) :
    writeTerms terms ≠ "" := by
  obtain ⟨t, later, rfl⟩ := List.exists_cons_of_ne_nil hne
  obtain ⟨c, -, htext⟩ := t.exists_sign
  intro hempty
  have hchars := congrArg String.toList hempty
  rw [writeTerms_cons, String.toList_append, htext] at hchars
  cases hchars

/-- No text is written in two ways, since it is read in one. -/
theorem writeTerms_injective {terms terms' : List Term} (hd : ∀ t ∈ terms, t.HasDigits)
    (hd' : ∀ t ∈ terms', t.HasDigits) (hw : writeTerms terms = writeTerms terms') :
    terms = terms' := by
  by_cases hne : terms = []
  · subst hne
    by_cases hne' : terms' = []
    · exact hne'.symm
    · exact absurd hw.symm (writeTerms_ne_empty hne')
  · have hne' : terms' ≠ [] := by
      rintro rfl
      exact writeTerms_ne_empty hne hw
    have hread := termsOfText_eq_ok.mpr ⟨hne, hd, rfl⟩
    have hread' := termsOfText_eq_ok.mpr ⟨hne', hd', hw⟩
    rw [hread] at hread'
    exact Except.ok.inj hread'

/-- Reading and writing terms undo each other: a text is read as terms just if it is what they
are written as, digit by digit, and no two lists of terms are written as the same text. -/
theorem termsOfText_writeTerms :
    (∀ text terms, termsOfText text = .ok terms ↔
      terms ≠ [] ∧ (∀ t ∈ terms, t.HasDigits) ∧ text = writeTerms terms) ∧
    ∀ terms terms', (∀ t ∈ terms, t.HasDigits) → (∀ t ∈ terms', t.HasDigits) →
      writeTerms terms = writeTerms terms' → terms = terms' :=
  ⟨fun _ _ => termsOfText_eq_ok, fun _ _ => writeTerms_injective⟩

example : termsOfText "+007d6-10" = .ok [.dice ⟨false, "007", "6"⟩, .modifier true "10"] := by
  rfl

/-- The expression is the terms one after the other, each behind its sign. Only the first
one has no sign, and is added. -/
def Expresses (expression : String) (terms : List Term) : Prop :=
  ∃ first later, terms = first :: later ∧ first.negative = false ∧
    (∀ t ∈ terms, t.HasDigits) ∧ expression = first.unsigned ++ writeTerms later

theorem expresses_iff {expression : String} {terms : List Term} :
    Expresses expression terms ↔
      terms ≠ [] ∧ (∀ t ∈ terms, t.HasDigits) ∧ withSign expression = writeTerms terms := by
  constructor
  · rintro ⟨first, later, rfl, hsign, hd, rfl⟩
    refine ⟨by simp, hd, ?_⟩
    rw [writeTerms_cons, first.text_eq, hsign, withSign, String.append_assoc]
    rfl
  · rintro ⟨hne, hd, hw⟩
    obtain ⟨first, later, rfl⟩ := List.exists_cons_of_ne_nil hne
    rw [writeTerms_cons, first.text_eq, ← String.toList_inj] at hw
    cases hsign : first.negative with
    | false =>
      refine ⟨first, later, rfl, hsign, hd, ?_⟩
      rw [← String.toList_inj]
      simpa [withSign, hsign, signText] using hw
    | true => simp [withSign, hsign, signText] at hw

/-- Exactly the texts that express terms are read as expressions, and as these terms. -/
theorem termsOfExpression_eq_ok {expression : String} {terms : List Term} :
    termsOfExpression expression = .ok terms ↔ Expresses expression terms := by
  rw [termsOfExpression, mapError_eq_ok, termsOfText_eq_ok, expresses_iff]

end DiceBot
