import DiceBot.BlankCharacters
import Mathlib.Data.List.DropRight

/-!
# Blanks around a text

A text is blanks, a part that neither starts nor ends with a blank, and blanks again. There is one
such part, and it is the trimmed text.
-/
namespace DiceBot

def IsBlankText (text : String) : Prop := ∀ c ∈ text.toList, isBlank c = true

instance (text : String) : Decidable (IsBlankText text) := List.decidableBAll _ text.toList

example : IsBlankText "\t\u2003\u0085" ∧ ¬ IsBlankText "\u200B" ∧ ¬ IsBlankText "\u001C" := by
  decide

theorem isBlankText_append {a b : String} :
    IsBlankText (a ++ b) ↔ IsBlankText a ∧ IsBlankText b := by
  simp [IsBlankText, or_imp, forall_and]

/-- The text is the trimmed one with blanks around it, and the trimmed one has no blank at either
end. -/
structure TrimsTo (text trimmed : String) : Prop where
  blanks : ∃ before after, IsBlankText before ∧ IsBlankText after ∧
    text = before ++ trimmed ++ after
  head : ∀ c ∈ trimmed.toList.head?, isBlank c = false
  last : ∀ c ∈ trimmed.toList.getLast?, isBlank c = false

theorem toList_trim (text : String) :
    (trim text).toList = (text.toList.dropWhile isBlank).rdropWhile isBlank := by
  rw [trim, trimEnd, String.toList_ofList, String.toList_ofList, List.rdropWhile]

theorem trimsTo_trim (text : String) : TrimsTo text (trim text) where
  blanks := by
    refine ⟨String.ofList (text.toList.takeWhile isBlank),
      String.ofList ((text.toList.dropWhile isBlank).rtakeWhile isBlank), ?_, ?_, ?_⟩
    · intro c hc
      rw [String.toList_ofList] at hc
      exact List.mem_takeWhile_imp hc
    · intro c hc
      rw [String.toList_ofList] at hc
      exact List.mem_rtakeWhile_imp hc
    · rw [← String.toList_inj, String.toList_append, String.toList_append, toList_trim,
        String.toList_ofList, String.toList_ofList, List.append_assoc,
        List.rdropWhile_append_rtakeWhile, List.takeWhile_append_dropWhile]
  head := by
    intro c hc
    rw [toList_trim] at hc
    obtain ⟨blanks, hblanks⟩ := List.rdropWhile_prefix isBlank (text.toList.dropWhile isBlank)
    have hfirst : (text.toList.dropWhile isBlank).head? = some c := by
      rw [← hblanks, List.head?_append, Option.mem_def.mp hc, Option.some_or]
    have hnot := List.head?_dropWhile_not isBlank text.toList
    rwa [hfirst] at hnot
  last := by
    intro c hc
    rw [toList_trim] at hc
    obtain ⟨hne, rfl⟩ := List.mem_getLast?_eq_getLast hc
    simpa using List.rdropWhile_last_not isBlank (text.toList.dropWhile isBlank) hne

theorem dropWhile_eq_self {chars : List Char} (h : ∀ c ∈ chars.head?, isBlank c = false) :
    chars.dropWhile isBlank = chars := by
  cases chars with
  | nil => rfl
  | cons c chars => rw [List.dropWhile_cons, h c rfl, if_neg Bool.false_ne_true]

/-- No other text is what is left of a text without the blanks around it. -/
theorem trimsTo_iff {text trimmed : String} : TrimsTo text trimmed ↔ trimmed = trim text := by
  refine ⟨fun h => ?_, fun h => h ▸ trimsTo_trim text⟩
  obtain ⟨before, after, hbefore, hafter, rfl⟩ := h.blanks
  rw [← String.toList_inj, toList_trim, String.toList_append, String.toList_append,
    List.append_assoc, List.dropWhile_append_of_pos hbefore]
  by_cases hempty : trimmed.toList = []
  · have hdrop : after.toList.dropWhile isBlank = [] := List.dropWhile_eq_nil_iff.mpr hafter
    rw [hempty, List.nil_append, hdrop, List.rdropWhile_nil]
  · have hhead : ∀ c ∈ (trimmed.toList ++ after.toList).head?, isBlank c = false := by
      rw [List.head?_append_of_ne_nil _ hempty]
      exact h.head
    have hbehind : ∀ c ∈ after.toList.reverse, isBlank c = true :=
      fun c hc => hafter c (List.mem_reverse.mp hc)
    have hlast : ∀ c ∈ trimmed.toList.reverse.head?, isBlank c = false := by
      rw [List.head?_reverse]
      exact h.last
    rw [dropWhile_eq_self hhead, List.rdropWhile, List.reverse_append,
      List.dropWhile_append_of_pos hbehind, dropWhile_eq_self hlast, List.reverse_reverse]

end DiceBot
