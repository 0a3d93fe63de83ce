import DiceBot.Proofs.WrittenRolls

/-!
# Rolls from text and from parts

The parts of a roll are checked once as they are read from a text and once as they are given as
dice and numbers. A term that can be given at all is refused by both checks or by none, and with
the same error. So it makes no difference whether a roll is written or put together from the dice
and the modifiers that are written.
-/
namespace DiceBot

/-- The term can be given as a part: there are such dice, or the number is one of the type. -/
def Term.CanBeGiven : Term → Prop
  | .dice t => Limit.dice.Admits (decimal t.count) ∧ Limit.sides.Admits (decimal t.sides)
  | .modifier negative magnitude =>
      NumberType.int32.Holds (signedValue negative (decimal magnitude))

instance : (t : Term) → Decidable t.CanBeGiven
  | .dice _ => inferInstanceAs (Decidable (_ ∧ _))
  | .modifier .. => inferInstanceAs (Decidable (NumberType.Holds _ _))

def refusedModifier? (modifiers : List Int) : Option Int :=
  modifiers.find? fun m => ¬ Limit.modifier.Admits m

theorem refusedModifier?_eq_none {modifiers : List Int} :
    refusedModifier? modifiers = none ↔ ∀ m ∈ modifiers, Limit.modifier.Admits m := by
  simp [refusedModifier?, List.find?_eq_none]

private theorem refusedModifier?_cons (m : Int) (modifiers : List Int) :
    refusedModifier? (m :: modifiers) =
      if Limit.modifier.Admits m then refusedModifier? modifiers else some m := by
  by_cases h : Limit.modifier.Admits m
  · rw [refusedModifier?, List.find?_cons_of_neg (by simpa using h), if_pos h, refusedModifier?]
  · rw [refusedModifier?, List.find?_cons_of_pos (by simpa using h), if_neg h]

theorem Term.amount?_modifier (negative : Bool) (magnitude : String) :
    (modifier negative magnitude).amount? = some (signedValue negative (decimal magnitude)) :=
  rfl

namespace Part

/-- A number that its type holds is shown in canonical form if it is refused. -/
theorem ofTerm_modifier_refused {negative : Bool} {magnitude : String} (hd : IsDigits magnitude)
    (hg : (Term.modifier negative magnitude).CanBeGiven)
    (h : ¬ Limit.modifier.Admits (signedValue negative (decimal magnitude))) :
    ofTerm (.modifier negative magnitude) =
      .error (.outOfRange .modifier (toString (signedValue negative (decimal magnitude)))) := by
  have hheld : NumberType.int32.Holds (signedValue negative (decimal magnitude)) := hg
  have hread := Limit.read_refused (NumberType.value?_signed negative hd) h
  rw [if_pos hheld] at hread
  rw [ofTerm, hread, error_bind]

variable {terms : List Term}

private theorem firstRefused?_of_canBeGiven (hg : ∀ t ∈ terms, t.CanBeGiven)
    (hm : refusedModifier? (terms.filterMap Term.amount?) = none) :
    firstRefused? (terms.flatMap Term.quantities) = none := by
  rw [firstRefused?_eq_none]
  intro q hq
  obtain ⟨t, ht, hq⟩ := List.mem_flatMap.mp hq
  cases t with
  | dice t =>
    obtain ⟨hcount, hsides⟩ := hg _ ht
    simp only [Term.quantities, List.mem_cons, List.not_mem_nil, or_false] at hq
    rcases hq with rfl | rfl
    · exact hcount
    · exact hsides
  | modifier negative magnitude =>
    rw [Term.quantities, List.mem_singleton] at hq
    rw [hq]
    refine refusedModifier?_eq_none.mp hm _ (List.mem_filterMap.mpr ⟨_, ht, ?_⟩)
    exact Term.amount?_modifier negative magnitude

/-- Terms that can be given are refused for their first modifier outside of the limit. -/
theorem ofTerms_of_canBeGiven (hd : ∀ t ∈ terms, t.HasDigits)
    (hg : ∀ t ∈ terms, t.CanBeGiven) {m : Int}
    (hm : refusedModifier? (terms.filterMap Term.amount?) = some m) :
    ofTerms terms = .error (.outOfRange .modifier (toString m)) := by
  induction terms with
  | nil => cases hm
  | cons t later ih =>
    rw [List.forall_mem_cons] at hd hg
    have hlater := ih hd.2 hg.2
    cases t with
    | dice t =>
      obtain ⟨d, hread, -⟩ := Die.ofTerm_admitted hd.1 hg.1.1 hg.1.2
      have hpart : ofTerm (.dice t) = .ok (.die d) := by
        rw [ofTerm, hread]
        rfl
      rw [ofTerms, hpart, ok_bind, hlater hm, error_bind]
    | modifier negative magnitude =>
      rw [List.filterMap_cons_some (Term.amount?_modifier ..), refusedModifier?_cons] at hm
      split at hm
      next h =>
        have hq : firstRefused? (Term.modifier negative magnitude).quantities = none := by
          simpa [firstRefused?, Term.quantities] using h
        obtain ⟨p, hpart, -⟩ := ofTerm_admitted hd.1 hq
        rw [ofTerms, hpart, ok_bind, hlater hm, error_bind]
      next h =>
        cases hm
        rw [ofTerms, ofTerm_modifier_refused hd.1 hg.1 h, error_bind]

end Part

/-- The dice that are written can be given. -/
theorem exists_dice_of_canBeGiven {terms : List Term} (hg : ∀ t ∈ terms, t.CanBeGiven) :
    ∃ dice, List.Forall₂ Die.IsOf dice (terms.filterMap Term.dice?) := by
  induction terms with
  | nil => exact ⟨[], .nil⟩
  | cons t later ih =>
    rw [List.forall_mem_cons] at hg
    obtain ⟨dice, hdice⟩ := ih hg.2
    cases t with
    | dice t =>
      exact ⟨⟨_, _, t.negative, hg.1.1, hg.1.2⟩ :: dice, .cons ⟨rfl, rfl, rfl⟩ hdice⟩
    | modifier negative magnitude => exact ⟨dice, hdice⟩

namespace Roll

theorem ofParts_refused {dice : List Die} {modifiers : List Int} (hd : dice ≠ [])
    (hp : dice.length + modifiers.length ≤ maxParts) {m : Int}
    (hm : refusedModifier? modifiers = some m) (mode : Mode) :
    ofParts dice modifiers mode = .error (.outOfRange .modifier (toString m)) := by
  rw [refusedModifier?] at hm
  rw [ofParts, dif_neg hd, dif_pos hp]
  split
  next m' hm' =>
    rw [hm] at hm'
    cases hm'
    rfl
  next hnone =>
    rw [hm] at hnone
    cases hnone

theorem ofParts_tooMany {dice : List Die} {modifiers : List Int} (hd : dice ≠ [])
    (hp : maxParts < dice.length + modifiers.length) (mode : Mode) :
    ofParts dice modifiers mode =
      .error (.tooManyParts (dice.length + modifiers.length) maxParts) := by
  rw [ofParts, dif_neg hd, dif_neg (Nat.not_le.mpr hp)]

/-- A roll is the same, and is refused with the same error, whether it is read from an expression
or put together from the dice and the modifiers that the expression has, unless these could not be
given at all. -/
theorem ofText_eq_ofParts {expression : String} {terms : List Term}
    (hexpression : Expresses expression terms) (hdice : terms.filterMap Term.dice? ≠ [])
    (hg : ∀ t ∈ terms, t.CanBeGiven) :
    ∃ dice, List.Forall₂ Die.IsOf dice (terms.filterMap Term.dice?) ∧
      ∀ mode, ofText expression mode = ofParts dice (terms.filterMap Term.amount?) mode := by
  have hd := hexpression.hasDigits
  obtain ⟨dice, hof⟩ := exists_dice_of_canBeGiven hg
  have hne : dice ≠ [] := by
    rintro rfl
    exact hdice (List.forall₂_nil_left_iff.mp hof)
  have hlength : dice.length + (terms.filterMap Term.amount?).length = terms.length := by
    rw [hof.length_eq, Term.length_filterMap]
  refine ⟨dice, hof, fun mode => ?_⟩
  by_cases hlen : terms.length ≤ maxParts
  · rw [ofText_of_expresses hexpression hlen]
    cases hm : refusedModifier? (terms.filterMap Term.amount?) with
    | some m =>
      rw [Part.ofTerms_of_canBeGiven hd hg hm, error_bind,
        ofParts_refused hne (hlength ▸ hlen) hm]
    | none =>
      obtain ⟨parts, hparts, hall⟩ :=
        Part.ofTerms_admitted hd (Part.firstRefused?_of_canBeGiven hg hm)
      have hsame : parts.val.filterMap Part.die? = dice :=
        List.left_unique_forall₂' (fun _ _ _ h h' => h.unique h') (Part.filterMap_die? hall) hof
      have hamounts := Part.filterMap_modifier? hall
      rw [hparts, ok_bind, ofParts_eq_ok hne (hlength ▸ hlen) (refusedModifier?_eq_none.mp hm)]
      simp only [ofPartsRead, hsame, hamounts, dif_neg hne]
  · have hmany : maxParts < dice.length + (terms.filterMap Term.amount?).length :=
      hlength ▸ Nat.not_le.mp hlen
    rw [ofParts_tooMany hne hmany, hlength, ofText, termsOfExpression_eq_ok.mpr hexpression,
      mapError_ok, ok_bind, dif_neg hlen]

/-- The zero in front of the modifier is gone from both errors. -/
theorem ofText_eq_ofParts_zero :
    ∃ dice, List.Forall₂ Die.IsOf dice [⟨false, "1", "20"⟩, ⟨true, "2", "4"⟩] ∧
      ofText "1d20+01001-2d4" .advantage = ofParts dice [1001] .advantage ∧
      ofParts dice [1001] .advantage = .error (.outOfRange .modifier "1001") := by
  let terms : List Term :=
    [.dice ⟨false, "1", "20"⟩, .modifier false "01001", .dice ⟨true, "2", "4"⟩]
  have hexpression : Expresses "1d20+01001-2d4" terms := termsOfExpression_eq_ok.mp rfl
  have hdice : terms.filterMap Term.dice? ≠ [] := by decide
  have hgiven : ∀ t ∈ terms, t.CanBeGiven := by decide +kernel
  have hamounts : terms.filterMap Term.amount? = [1001] := by decide +kernel
  have hread : ofText "1d20+01001-2d4" .advantage = .error (.outOfRange .modifier "1001") := by
    decide +kernel
  obtain ⟨dice, hof, hsame⟩ := ofText_eq_ofParts hexpression hdice hgiven
  have hparts := hsame .advantage
  rw [hamounts] at hparts
  exact ⟨dice, hof, hparts, hparts.symm.trans hread⟩

end Roll

end DiceBot
