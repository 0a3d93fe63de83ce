import DiceBot.Requests

/-!
# The words of a line

A word is a text that is not empty and has no blanks. A line has only words, and is the
same as its words written with a space between them as far as they are concerned.
-/
namespace DiceBot

def IsWord (word : String) : Prop := word ≠ "" ∧ ∀ c ∈ word.toList, isBlank c = false

instance (word : String) : Decidable (IsWord word) :=
  decidable_of_iff (word ≠ "" ∧ word.toList.all (!isBlank ·) = true) (by simp [IsWord])

private theorem mem_splitOnP {p : Char → Bool} {part l : List Char}
    (h : part ∈ l.splitOnP p) : ∀ c ∈ part, p c = false := by
  induction l generalizing part with
  | nil =>
    rw [List.splitOnP_nil, List.mem_singleton] at h
    subst h
    simp
  | cons d l ih =>
    rw [List.splitOnP_cons_eq_if_modifyHead] at h
    split at h
    · rcases List.mem_cons.mp h with rfl | h
      · simp
      · exact ih h
    next hd =>
      obtain ⟨first, rest, hsplit⟩ := List.exists_cons_of_ne_nil (List.splitOnP_ne_nil p l)
      rw [hsplit, List.modifyHead_cons] at h
      rcases List.mem_cons.mp h with rfl | h
      · have hfirst : ∀ c ∈ first, p c = false := ih (by simp [hsplit])
        intro c hc
        rcases List.mem_cons.mp hc with rfl | hc
        · simpa using hd
        · exact hfirst c hc
      · exact ih (by simp [hsplit, h])

theorem isWord_of_mem_words {word line : String} (h : word ∈ words line) : IsWord word := by
  rw [words] at h
  obtain ⟨part, hpart, rfl⟩ := List.mem_map.mp h
  obtain ⟨hsplit, hne⟩ := List.mem_filter.mp hpart
  constructor
  · simpa using hne
  · intro c hc
    rw [String.toList_ofList] at hc
    exact mem_splitOnP hsplit c hc

theorem words_of_isWord {word : String} (h : IsWord word) : words word = [word] := by
  obtain ⟨hne, hblank⟩ := h
  have hchars : word.toList ≠ [] := by simpa using hne
  rw [words, List.splitOnP_eq_singleton hblank]
  simp [hchars]

theorem words_append_blank {c : Char} (hc : isBlank c = true) (before after : String) :
    words (before ++ String.singleton c ++ after) = words before ++ words after := by
  have htext : (before ++ String.singleton c ++ after).toList =
      before.toList ++ c :: after.toList := by
    simp
  rw [words, htext, List.splitOnP_append_cons _ _ hc, List.filter_append, List.map_append]
  rfl

private theorem words_append_space (before after : String) :
    words (before ++ " " ++ after) = words before ++ words after := by
  have hspace : " " = String.singleton ' ' := by simp
  rw [hspace, words_append_blank (by decide)]

theorem words_intercalate {ws : List String} (h : ∀ w ∈ ws, IsWord w) :
    words (" ".intercalate ws) = ws := by
  induction ws with
  | nil => rfl
  | cons w ws ih =>
    have hw : words w = [w] := words_of_isWord (h w List.mem_cons_self)
    have hws := ih fun v hv => h v (List.mem_cons_of_mem w hv)
    cases ws with
    | nil => rw [String.intercalate_singleton, hw]
    | cons v ws =>
      rw [String.intercalate_cons_cons, words_append_space, hw, hws]
      rfl

namespace Request

/-- A line that is written out of its words asks for what its first word says. -/
theorem ofLine?_intercalate {word : String} {args : List String} (hword : IsWord word)
    (hargs : ∀ w ∈ args, IsWord w) :
    ofLine? (" ".intercalate (word :: args)) =
      some (ofCommand (withoutSlash word) args) := by
  have hwords : ∀ w ∈ word :: args, IsWord w := by
    intro w hw
    rcases List.mem_cons.mp hw with rfl | hw
    · exact hword
    · exact hargs w hw
  rw [ofLine?, words_intercalate hwords]
  rfl

private theorem ofCommand_eq_save {command : String} {ws args : List String}
    (h : ofCommand command ws = .save args) : ws = args := by
  unfold ofCommand at h
  split at h <;> cases h
  rfl

theorem isWord_of_save {line : String} {args : List String}
    (h : ofLine? line = some (.save args)) : ∀ w ∈ args, IsWord w := by
  intro w hw
  cases hwords : words line with
  | nil => simp [ofLine?, hwords, ofWords?] at h
  | cons word ws =>
    rw [ofLine?, hwords, ofWords?, Option.some_inj] at h
    rw [← ofCommand_eq_save h] at hw
    have hmem : w ∈ words line := by simp [hwords, hw]
    exact isWord_of_mem_words hmem

end Request

end DiceBot
