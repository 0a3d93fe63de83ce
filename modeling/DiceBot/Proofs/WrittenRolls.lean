import DiceBot.Proofs.ExpressionOutcomes
import DiceBot.Proofs.SyntaxErrorPlaces
import DiceBot.Proofs.WrittenNumbers

/-!
# Reading a roll from its own notation

A roll is written as its dice and then its modifiers, each as a term. Only the first die is
written without a plus sign, which is just what an expression leaves out. So the notation of a
roll is read as the same roll, unless its first die is taken away: then the notation starts with
a minus sign, and no expression does.
-/
namespace DiceBot

def Die.term (d : Die) : DiceTerm := ⟨d.negative, toString d.count, toString d.sides⟩

def modifierTerm (m : Int) : Term := .modifier (m < 0) (toString m.natAbs)

namespace Die

theorem term_hasDigits (d : Die) : d.term.HasDigits := ⟨isDigits_toString _, isDigits_toString _⟩

theorem isOf_term (d : Die) : d.IsOf d.term where
  count := (decimal_toString d.count).symm
  sides := (decimal_toString d.sides).symm
  negative := rfl

/-- No other die has the numbers and the sign of a term. -/
theorem IsOf.unique {d d' : Die} {t : DiceTerm} (h : d.IsOf t) (h' : d'.IsOf t) : d = d' := by
  have hcount := h.count.trans h'.count.symm
  have hsides := h.sides.trans h'.sides.symm
  have hnegative := h.negative.trans h'.negative.symm
  cases d
  cases d'
  cases hcount
  cases hsides
  cases hnegative
  rfl

private theorem laterDieText_eq (d : Die) : laterDieText d = (Term.dice d.term).text := by
  rw [laterDieText, Die.text, Term.text, DiceTerm.text, term]
  cases d.negative <;> simp [signText, String.append_assoc]

private theorem text_of_not_negative {d : Die} (h : d.negative = false) :
    d.text = (Term.dice d.term).unsigned := by
  rw [Die.text, h, Term.unsigned, term]
  simp

/-- The sign is the first character of negative dice. -/
theorem exists_text_of_negative {d : Die} (h : d.negative = true) :
    ∃ rest, d.text.toList = '-' :: rest := by
  refine ⟨(toString d.count ++ "d" ++ toString d.sides).toList, ?_⟩
  rw [Die.text, h]
  simp

end Die

private theorem modifierText_eq (m : Int) : modifierText m = (modifierTerm m).text := by
  rw [modifierText, toString_int, modifierTerm, Term.text, signText]
  by_cases hm : m < 0
  · simp [hm, Int.not_le.mpr hm]
  · simp [hm, Int.not_lt.mp hm]

private theorem rollText_cons (d : Die) (ds : List Die) (ms : List Int) :
    rollText (d :: ds) ms =
      d.text ++ String.join (ds.map laterDieText) ++ String.join (ms.map modifierText) := rfl

private theorem amount?_modifierTerm (m : Int) : (modifierTerm m).amount? = some m := by
  rw [modifierTerm, Term.amount?, decimal_toString, signedValue_natAbs]

theorem filterMap_dice?_diceTerms (dice : List Die) :
    (dice.map (Term.dice ·.term)).filterMap Term.dice? = dice.map Die.term := by
  rw [List.filterMap_map]
  exact congrFun List.filterMap_eq_map dice

theorem filterMap_dice?_modifierTerms (modifiers : List Int) :
    (modifiers.map modifierTerm).filterMap Term.dice? = [] := by
  simp [modifierTerm, Term.dice?]

theorem filterMap_amount?_diceTerms (dice : List Die) :
    (dice.map (Term.dice ·.term)).filterMap Term.amount? = [] := by
  simp [Term.amount?]

theorem filterMap_amount?_modifierTerms (modifiers : List Int) :
    (modifiers.map modifierTerm).filterMap Term.amount? = modifiers := by
  have hsome : Term.amount? ∘ modifierTerm = some := funext amount?_modifierTerm
  rw [List.filterMap_map, hsome, List.filterMap_some]

namespace Roll

def firstDie (r : Roll) : Die := r.dice.head r.dice_ne_nil

def terms (r : Roll) : List Term := r.dice.map (.dice ·.term) ++ r.modifiers.map modifierTerm

theorem terms_hasDigits (r : Roll) : ∀ t ∈ r.terms, t.HasDigits := by
  intro t ht
  rcases List.mem_append.mp ht with ht | ht
  · obtain ⟨d, -, rfl⟩ := List.mem_map.mp ht
    exact d.term_hasDigits
  · obtain ⟨m, -, rfl⟩ := List.mem_map.mp ht
    exact isDigits_toString _

private theorem filterMap_dice?_terms (r : Roll) :
    r.terms.filterMap Term.dice? = r.dice.map Die.term := by
  rw [terms, List.filterMap_append, filterMap_dice?_diceTerms, filterMap_dice?_modifierTerms,
    List.append_nil]

private theorem filterMap_amount?_terms (r : Roll) :
    r.terms.filterMap Term.amount? = r.modifiers := by
  rw [terms, List.filterMap_append, filterMap_amount?_diceTerms, filterMap_amount?_modifierTerms,
    List.nil_append]

theorem isOf_terms (r : Roll) : r.IsOf r.terms where
  dice := by
    rw [filterMap_dice?_terms, List.forall₂_map_right_iff, List.forall₂_same]
    exact fun d _ => d.isOf_term
  modifiers := r.filterMap_amount?_terms.symm

/-- Terms stand for one roll in each mode. -/
theorem IsOf.unique {r r' : Roll} {terms : List Term} (h : r.IsOf terms) (h' : r'.IsOf terms) :
    r' = r.withMode r'.mode := by
  have hdice : r'.dice = r.dice :=
    List.left_unique_forall₂' (fun _ _ _ hd hd' => hd.unique hd') h'.dice h.dice
  have hmodifiers : r'.modifiers = r.modifiers := h'.modifiers.trans h.modifiers.symm
  cases r
  cases r'
  cases hdice
  cases hmodifiers
  rfl

/-- The numbers of a roll are within their limits, and so are those of the terms of the roll. -/
theorem IsOf.none_refused {r : Roll} {terms : List Term} (h : r.IsOf terms) :
    firstRefused? (terms.flatMap Term.quantities) = none := by
  rw [firstRefused?_eq_none]
  intro q hq
  obtain ⟨t, ht, hq⟩ := List.mem_flatMap.mp hq
  cases t with
  | dice t =>
    have hall : List.Forall₂ (fun (t : DiceTerm) d => (Limit.dice.Admits (decimal t.count) ∧
        Limit.sides.Admits (decimal t.sides)) ∧ Die.IsOf d t) (terms.filterMap Term.dice?) r.dice :=
      h.dice.flip.imp fun t d hd =>
        ⟨⟨hd.count ▸ d.count_admitted, hd.sides ▸ d.sides_admitted⟩, hd⟩
    obtain ⟨hcount, hsides⟩ := ((List.forall₂_and_left _ _).mp hall).1 t
      (List.mem_filterMap.mpr ⟨_, ht, rfl⟩)
    simp only [Term.quantities, List.mem_cons, List.not_mem_nil, or_false] at hq
    rcases hq with rfl | rfl
    · exact hcount
    · exact hsides
  | modifier negative magnitude =>
    rw [Term.quantities, List.mem_singleton] at hq
    rw [hq]
    exact r.modifiers_admitted _ (h.modifiers ▸ List.mem_filterMap.mpr ⟨_, ht, rfl⟩)

/-- Behind the first die, every term is written with its sign. -/
theorem text_eq (r : Roll) : r.text = r.firstDie.text ++ writeTerms r.terms.tail := by
  obtain ⟨d, later, hdice⟩ := List.exists_cons_of_ne_nil r.dice_ne_nil
  have hterms : r.terms.tail =
      later.map (Term.dice ·.term) ++ r.modifiers.map modifierTerm := by
    simp [terms, hdice]
  have hlater : later.map laterDieText = later.map (Term.text ∘ (Term.dice ·.term)) :=
    List.map_congr_left fun d _ => d.laterDieText_eq
  have hmodifiers : r.modifiers.map modifierText = r.modifiers.map (Term.text ∘ modifierTerm) :=
    List.map_congr_left fun m _ => modifierText_eq m
  have hfirst : r.firstDie = d := by simp [firstDie, hdice]
  rw [text, hdice, rollText_cons, hterms, hfirst, writeTerms, List.map_append, List.map_map,
    List.map_map, hlater, hmodifiers, String.join_append, String.append_assoc]

theorem expresses_text {r : Roll} (h : r.firstDie.negative = false) :
    Expresses r.text r.terms := by
  have hterms : r.terms = .dice r.firstDie.term :: r.terms.tail := by
    obtain ⟨d, later, hdice⟩ := List.exists_cons_of_ne_nil r.dice_ne_nil
    simp [terms, firstDie, hdice]
  refine ⟨_, _, hterms, h, r.terms_hasDigits, ?_⟩
  rw [text_eq, Die.text_of_not_negative h]

/-- An expression of terms of a roll is read as the roll. -/
theorem ofText_of_isOf {expression : String} {terms : List Term} {r : Roll}
    (h : Expresses expression terms) (hof : r.IsOf terms) (mode : Mode) :
    ofText expression mode = .ok (r.withMode mode) := by
  have hlen : terms.length ≤ maxParts := by
    rw [← Term.length_filterMap, ← hof.dice.length_eq, ← hof.modifiers]
    exact r.parts_le
  have hdice : terms.filterMap Term.dice? ≠ [] := by
    intro hnil
    have hall := hof.dice
    rw [hnil, List.forall₂_nil_right_iff] at hall
    exact r.dice_ne_nil hall
  obtain ⟨parts, hparts, hall⟩ := Part.ofTerms_admitted h.hasDigits hof.none_refused
  obtain ⟨r', hr', hterms, rfl⟩ := ofPartsRead_eq_ok expression hall hlen mode hdice
  rw [ofText_of_expresses h hlen, hparts, ok_bind, hr', ← hof.unique hterms]

theorem ofText_of_expresses_terms {expression : String} {r : Roll}
    (h : Expresses expression r.terms) (mode : Mode) :
    ofText expression mode = .ok (r.withMode mode) := ofText_of_isOf h r.isOf_terms mode

/-- No expression starts with a minus sign, which is where the reading stops. -/
theorem ofText_of_minus {expression : String} {rest : List Char}
    (h : expression.toList = '-' :: rest) (mode : Mode) :
    ¬ IsExpression expression ∧
      ofText expression mode = .error (.invalidSyntax expression ⟨0, 1⟩ .unexpected) := by
  have hread : readTermsFrom (.signed false) expression.toList = .error (.unexpected '-' rest) := by
    rw [h]
    rfl
  constructor
  · rw [isExpression_iff]
    rintro ⟨terms, hterms⟩
    rw [hread] at hterms
    cases hterms
  · have htext : expression = String.singleton '-' ++ String.ofList rest := by
      simp [← String.toList_inj, h]
    have hsize : expression.utf8ByteSize = 1 + (String.ofList rest).utf8ByteSize := by
      rw [htext, String.utf8ByteSize_append]
      rfl
    have hspan : (Stop.unexpected '-' rest).span expression = ⟨0, 1⟩ := by
      have hminus : '-'.utf8Size = 1 := rfl
      rw [Stop.span, Span.mk.injEq]
      omega
    rw [ofText_of_stopped hread, pred_span_unexpected, hspan]
    rfl

/-- The notation of a roll is read as the same roll in any mode, just if its first die is added.
If it is taken away, the notation is no expression, and the error marks the minus sign. -/
theorem ofText_text (r : Roll) (mode : Mode) :
    (ofText r.text mode = .ok (r.withMode mode) ↔ r.firstDie.negative = false) ∧
      (r.firstDie.negative = true → ¬ IsExpression r.text ∧
        ofText r.text mode = .error (.invalidSyntax r.text ⟨0, 1⟩ .unexpected)) := by
  have hminus (h : r.firstDie.negative = true) : ¬ IsExpression r.text ∧
      ofText r.text mode = .error (.invalidSyntax r.text ⟨0, 1⟩ .unexpected) := by
    obtain ⟨rest, hrest⟩ := Die.exists_text_of_negative h
    have htext : r.text.toList = '-' :: (rest ++ (writeTerms r.terms.tail).toList) := by
      rw [text_eq, String.toList_append, hrest, List.cons_append]
    exact ofText_of_minus htext mode
  refine ⟨⟨fun hread => ?_, fun h => ?_⟩, hminus⟩
  · by_contra h
    rw [(hminus (by simpa using h)).2] at hread
    cases hread
  · exact ofText_of_expresses_terms (expresses_text h) mode

example : (ofText "5+2d6-1d4+0" .advantage).map text = .ok "2d6-1d4+5+0" := by
  decide +kernel

theorem ofText_text_subtracted : ∃ r : Roll, ofText "3-1d4" .normal = .ok r ∧
    r.firstDie.negative = true ∧ r.text = "-1d4+3" ∧ ¬ IsExpression "-1d4+3" ∧
      ofText "-1d4+3" .normal = .error (.invalidSyntax "-1d4+3" ⟨0, 1⟩ .unexpected) := by
  have hread : ofText "3-1d4" .normal = .ok
      ⟨[⟨1, 4, true, by decide, by decide⟩], [3], .normal, by decide, by decide, by decide⟩ := by
    decide +kernel
  have hnegative : (Roll.mk [⟨1, 4, true, by decide, by decide⟩] [3] .normal (by decide)
      (by decide) (by decide)).firstDie.negative = true := by
    rfl
  exact ⟨_, hread, hnegative, by decide +kernel, (ofText_text _ .normal).2 hnegative⟩

end Roll

end DiceBot
