import DiceBot.Proofs.WrittenRolls

/-!
# The rolls that can be written

An expression has no sign in front, so its first term is added. It keeps the order of the dice and
the order of the modifiers, but the two may be mixed, and either can come first. So a roll can be
written just if its first die or its first modifier is not negative. All others can be put together
from their parts, and cannot be written.
-/
namespace DiceBot

namespace Roll

/-- The roll has a part that can be written first: one that is the first of its kind and is not
negative. -/
def StartsAdded (r : Roll) : Prop :=
  r.firstDie.negative = false ∨ ∃ m ∈ r.modifiers.head?, 0 ≤ m

def termsBehind (r : Roll) (front later : List Int) : List Term :=
  front.map modifierTerm ++ (r.dice.map (.dice ·.term) ++ later.map modifierTerm)

private theorem termsBehind_hasDigits (r : Roll) (front later : List Int) :
    ∀ t ∈ r.termsBehind front later, t.HasDigits := by
  intro t ht
  rcases List.mem_append.mp ht with ht | ht
  · obtain ⟨m, -, rfl⟩ := List.mem_map.mp ht
    exact isDigits_toString _
  rcases List.mem_append.mp ht with ht | ht
  · obtain ⟨d, -, rfl⟩ := List.mem_map.mp ht
    exact d.term_hasDigits
  · obtain ⟨m, -, rfl⟩ := List.mem_map.mp ht
    exact isDigits_toString _

/-- It does not matter how many of the modifiers are in front. -/
theorem isOf_termsBehind {r : Roll} {front later : List Int} (h : r.modifiers = front ++ later) :
    r.IsOf (r.termsBehind front later) where
  dice := by
    rw [termsBehind, List.filterMap_append, List.filterMap_append, filterMap_dice?_modifierTerms,
      filterMap_dice?_diceTerms, filterMap_dice?_modifierTerms, List.nil_append, List.append_nil,
      List.forall₂_map_right_iff, List.forall₂_same]
    exact fun d _ => d.isOf_term
  modifiers := by
    rw [termsBehind, List.filterMap_append, List.filterMap_append, filterMap_amount?_diceTerms,
      filterMap_amount?_modifierTerms, filterMap_amount?_modifierTerms, List.nil_append, h]

/-- A modifier that is not negative can be written in front of the dice. -/
theorem expresses_termsBehind (r : Roll) {m : Int} (h : 0 ≤ m) (later : List Int) :
    Expresses ((modifierTerm m).unsigned ++ writeTerms (r.termsBehind [] later))
      (r.termsBehind [m] later) := by
  refine ⟨modifierTerm m, r.termsBehind [] later, rfl, ?_, r.termsBehind_hasDigits [m] later, rfl⟩
  exact decide_eq_false (Int.not_lt.mpr h)

theorem exists_ofText_of_startsAdded {r : Roll} (h : r.StartsAdded) (mode : Mode) :
    ∃ expression, ofText expression mode = .ok (r.withMode mode) := by
  rcases h with hdie | ⟨m, hm, hadded⟩
  · exact ⟨r.text, ofText_of_expresses_terms (expresses_text hdie) mode⟩
  · obtain ⟨later, hmodifiers⟩ := List.head?_eq_some_iff.mp hm
    exact ⟨_, ofText_of_isOf (r.expresses_termsBehind hadded later)
      (isOf_termsBehind hmodifiers) mode⟩

/-- The first term that is expressed is the first die or the first modifier of the roll. -/
theorem startsAdded_of_expresses {expression : String} {terms : List Term} {r : Roll}
    (h : Expresses expression terms) (hof : r.IsOf terms) : r.StartsAdded := by
  obtain ⟨first, later, rfl, hsign, -, -⟩ := h
  cases first with
  | dice t =>
    obtain ⟨d, ds, hd, -, hdice⟩ := List.forall₂_cons_right_iff.mp hof.dice
    have hfirst : r.firstDie = d := by simp [firstDie, hdice]
    exact .inl (by rw [hfirst, hd.negative]; exact hsign)
  | modifier negative magnitude =>
    have hadded : negative = false := hsign
    refine .inr ⟨decimal magnitude, ?_, Int.natCast_nonneg _⟩
    rw [hof.modifiers, hadded]
    rfl

/-- Every roll can be put together from its parts. Some expression is read as the roll in its own
mode just if its first die or its first modifier is not negative. In another mode no expression is
read as this roll, since the mode that is given is the mode of what is read. -/
theorem exists_ofText_iff (r : Roll) :
    ofParts r.dice r.modifiers r.mode = .ok r ∧
      ((∃ expression, ofText expression r.mode = .ok r) ↔ r.StartsAdded) ∧
      ∀ expression mode, ofText expression mode = .ok r → mode = r.mode := by
  refine ⟨ofParts_eq_ok r.dice_ne_nil r.parts_le r.modifiers_admitted r.mode, ⟨?_, ?_⟩, ?_⟩
  · rintro ⟨expression, hread⟩
    obtain ⟨terms, hexpression, hof⟩ := exists_terms_of_ofText hread
    exact startsAdded_of_expresses hexpression hof
  · intro h
    exact exists_ofText_of_startsAdded h r.mode
  · intro expression mode hread
    exact (mode_of_ofText hread).symm

example : ¬ StartsAdded ⟨[⟨1, 4, true, by decide, by decide⟩], [-3, 5], .normal,
    by decide, by decide, by decide⟩ := by
  rintro (hdie | ⟨m, hm, hadded⟩)
  · cases hdie
  · obtain rfl : m = -3 := (Option.some_inj.mp hm).symm
    cases hadded

end Roll

end DiceBot
