import DiceBot.Proofs.BlankTexts
import DiceBot.Proofs.BotSteps
import DiceBot.Proofs.LineWords

/-!
# Blanks in a line of chat

Between the words of a line there may be any blanks, as long as there are some, and around them
there may be blanks, too. Whatever they are, the line has these words, and every line is its words
with blanks of that kind. So a line is answered as its words are, and one without words is not
answered.
-/
namespace DiceBot

/-- What stands behind a word of a line: each of the words behind one or more blanks, and then any
blanks. -/
inductive Follows : List String → String → Prop
  | blanks {after : String} : IsBlankText after → Follows [] after
  | word {gap word rest : String} {ws : List String} :
      IsBlankText gap → gap ≠ "" → Follows ws rest → Follows (word :: ws) (gap ++ word ++ rest)

/-- The line is the words with one or more blanks between them and any blanks around them. -/
def IsLineOf : List String → String → Prop
  | [], line => IsBlankText line
  | first :: ws, line =>
      ∃ before rest, IsBlankText before ∧ Follows ws rest ∧ line = before ++ first ++ rest

theorem words_blanks_append {blanks : String} (h : IsBlankText blanks) (text : String) :
    words (blanks ++ text) = words text := by
  obtain ⟨cs, rfl⟩ : ∃ cs, blanks = String.ofList cs := ⟨_, String.ofList_toList.symm⟩
  induction cs with
  | nil => rw [String.ofList_nil, String.empty_append]
  | cons c cs ih =>
    have hchars : String.ofList (c :: cs) = "" ++ String.singleton c ++ String.ofList cs := by simp
    rw [hchars, isBlankText_append, isBlankText_append] at h
    have hc : isBlank c = true := h.1.2 c (by simp)
    rw [hchars, String.append_assoc, words_append_blank hc, ih h.2]
    rfl

private theorem words_append_blanks {gap : String} (h : IsBlankText gap) (hne : gap ≠ "")
    (before after : String) : words (before ++ gap ++ after) = words before ++ words after := by
  obtain ⟨c, cs, hgap⟩ := List.exists_cons_of_ne_nil (mt String.toList_eq_nil_iff.mp hne)
  have hchars : gap = String.singleton c ++ String.ofList cs := by
    simp [← String.toList_inj, hgap]
  rw [hchars, isBlankText_append] at h
  have hc : isBlank c = true := h.1 c (by simp)
  rw [hchars, ← String.append_assoc, String.append_assoc, words_append_blank hc,
    words_blanks_append h.2]

theorem words_of_isBlankText {text : String} (h : IsBlankText text) : words text = [] := by
  have hwords := words_blanks_append h ""
  rwa [String.append_empty] at hwords

/-- Behind a word, the other words of the line are those that follow it. -/
theorem words_append_of_follows {word rest : String} {ws : List String} (hword : IsWord word)
    (hws : ∀ w ∈ ws, IsWord w) (h : Follows ws rest) : words (word ++ rest) = word :: ws := by
  induction h generalizing word with
  | @blanks after hafter =>
    by_cases hne : after = ""
    · rw [hne, String.append_empty, words_of_isWord hword]
    · have hwords := words_append_blanks hafter hne word ""
      rw [String.append_empty] at hwords
      rw [hwords, words_of_isWord hword]
      rfl
  | @word gap next rest ws hgap hne hfollows ih =>
    rw [List.forall_mem_cons] at hws
    rw [String.append_assoc, ← String.append_assoc, words_append_blanks hgap hne,
      words_of_isWord hword, ih hws.1 hws.2]
    rfl

theorem words_of_isLineOf {ws : List String} {line : String} (hws : ∀ w ∈ ws, IsWord w)
    (h : IsLineOf ws line) : words line = ws := by
  cases ws with
  | nil => exact words_of_isBlankText h
  | cons first ws =>
    obtain ⟨before, rest, hbefore, hfollows, rfl⟩ := h
    rw [List.forall_mem_cons] at hws
    rw [String.append_assoc, words_blanks_append hbefore,
      words_append_of_follows hws.1 hws.2 hfollows]

/-- A text that is not only blanks starts with a word, behind any blanks, and the word goes on to
the next blank or to the end. -/
theorem exists_word_of_not_isBlankText {text : String} (h : ¬ IsBlankText text) :
    ∃ gap word rest, IsBlankText gap ∧ IsWord word ∧
      (∀ c ∈ rest.toList.head?, isBlank c = true) ∧ text = gap ++ word ++ rest := by
  let shown := text.toList.dropWhile isBlank
  have hne : shown ≠ [] := by
    intro hnil
    exact h (List.dropWhile_eq_nil_iff.mp hnil)
  obtain ⟨c, cs, hshown⟩ := List.exists_cons_of_ne_nil hne
  have hc : isBlank c = false := by
    have hnot := List.head?_dropWhile_not isBlank text.toList
    rwa [show text.toList.dropWhile isBlank = c :: cs from hshown] at hnot
  refine ⟨String.ofList (text.toList.takeWhile isBlank),
    String.ofList (shown.takeWhile (!isBlank ·)), String.ofList (shown.dropWhile (!isBlank ·)),
    ?_, ⟨?_, ?_⟩, ?_, ?_⟩
  · intro d hd
    rw [String.toList_ofList] at hd
    exact List.mem_takeWhile_imp hd
  · rw [hshown, List.takeWhile_cons_of_pos (by simp [hc])]
    simp
  · intro d hd
    rw [String.toList_ofList] at hd
    simpa using List.mem_takeWhile_imp hd
  · intro d hd
    rw [String.toList_ofList, Option.mem_def] at hd
    have hnot := List.head?_dropWhile_not (!isBlank ·) shown
    rw [hd] at hnot
    simpa using hnot
  · rw [← String.toList_inj]
    simp only [String.toList_append, String.toList_ofList, List.append_assoc, shown,
      List.takeWhile_append_dropWhile]

theorem words_blanks_word {gap word rest : String} (hgap : IsBlankText gap) (hword : IsWord word)
    (hrest : Follows (words rest) rest) : words (gap ++ word ++ rest) = word :: words rest := by
  rw [String.append_assoc, words_blanks_append hgap]
  exact words_append_of_follows hword (fun w => isWord_of_mem_words) hrest

private theorem follows_words (text : String) (h : ∀ c ∈ text.toList.head?, isBlank c = true) :
    Follows (words text) text := by
  by_cases hblank : IsBlankText text
  · rw [words_of_isBlankText hblank]
    exact .blanks hblank
  · obtain ⟨gap, word, rest, hgap, hword, hrest, htext⟩ := exists_word_of_not_isBlankText hblank
    have hne : gap ≠ "" := by
      rintro rfl
      obtain ⟨c, cs, hcs⟩ := List.exists_cons_of_ne_nil (mt String.toList_eq_nil_iff.mp hword.1)
      have hc := hword.2 c (by simp [hcs])
      rw [h c (by simp [htext, hcs])] at hc
      cases hc
    have hlt : rest.length < text.length := by
      have hpos : word.length ≠ 0 := mt String.length_eq_zero_iff.mp hword.1
      rw [htext, String.length_append, String.length_append]
      omega
    have hfollows := follows_words rest hrest
    rw [htext, words_blanks_word hgap hword hfollows]
    exact .word hgap hne hfollows
termination_by text.length

/-- Every line is its words with blanks between and around them. -/
theorem isLineOf_words (line : String) : IsLineOf (words line) line := by
  by_cases hblank : IsBlankText line
  · rw [words_of_isBlankText hblank]
    exact hblank
  · obtain ⟨before, first, rest, hbefore, hfirst, hrest, hline⟩ :=
      exists_word_of_not_isBlankText hblank
    have hfollows := follows_words rest hrest
    rw [hline, words_blanks_word hbefore hfirst hfollows]
    exact ⟨before, rest, hbefore, hfollows, rfl⟩

theorem words_eq_iff {line : String} {ws : List String} :
    words line = ws ↔ (∀ w ∈ ws, IsWord w) ∧ IsLineOf ws line := by
  constructor
  · rintro rfl
    exact ⟨fun w => isWord_of_mem_words, isLineOf_words line⟩
  · rintro ⟨hws, hline⟩
    exact words_of_isLineOf hws hline

namespace Request

theorem ofLine?_eq_none {line : String} : ofLine? line = none ↔ IsBlankText line := by
  have hnil : ofLine? line = none ↔ words line = [] := by
    rw [ofLine?]
    cases words line <;> simp [ofWords?]
  rw [hnil, words_eq_iff]
  exact and_iff_right (fun w hw => absurd hw List.not_mem_nil)

/-- One slash in front of the first word makes no difference. -/
theorem ofWords?_slash {first : String} (h : first.toList.head? ≠ some '/') (ws : List String) :
    ofWords? (("/" ++ first) :: ws) = ofWords? (first :: ws) := by
  have hslash : withoutSlash ("/" ++ first) = first := by simp [withoutSlash]
  have hself : withoutSlash first = first := by
    rw [withoutSlash]
    split
    next rest hrest => exact absurd (by rw [hrest, List.head?_cons]) h
    next => rfl
  rw [ofWords?, ofWords?, hslash, hself]

end Request

namespace Bot

variable {ρ ε : Type} [Source ρ ε]

theorem handle_eq_none {b b' : Bot ρ} {owner : Owner} {line : String} :
    handle owner line b = .ok none b' ↔ IsBlankText line ∧ b' = b := by
  rw [← Request.ofLine?_eq_none]
  cases hline : Request.ofLine? line with
  | none =>
    rw [handle_blank hline, EStateM.Result.ok.injEq]
    simp [eq_comm]
  | some request =>
    simp only [reduceCtorEq, false_and, iff_false]
    intro h
    rw [handle, hline] at h
    obtain ⟨reply, -, hreply⟩ := map_apply_eq_ok.mp h
    cases hreply

/-- A line is answered as its words are, however many blanks there are between and around them, and
a slash in front of the first word makes no difference unless there is one already. The lines that
get no reply are those of blanks only, and they change nothing. -/
theorem handle_spaced (owner : Owner) :
    (∀ ws line, (∀ w ∈ ws, IsWord w) → IsLineOf ws line →
      (handle owner line : EStateM ε (Bot ρ) (Option String)) =
        handle owner (" ".intercalate ws)) ∧
    (∀ first ws line line', (∀ w ∈ first :: ws, IsWord w) → first.toList.head? ≠ some '/' →
      IsLineOf (first :: ws) line → IsLineOf (("/" ++ first) :: ws) line' →
        (handle owner line' : EStateM ε (Bot ρ) (Option String)) = handle owner line) ∧
    ∀ line (b b' : Bot ρ), handle owner line b = .ok none b' ↔ IsBlankText line ∧ b' = b := by
  refine ⟨fun ws line hws hline => ?_, fun first ws line line' hws hfirst hline hline' => ?_, ?_⟩
  · have hwords : words line = words (" ".intercalate ws) := by
      rw [words_of_isLineOf hws hline, words_intercalate hws]
    rw [handle, handle, Request.ofLine?, Request.ofLine?, hwords]
  · have hslashed : ∀ w ∈ ("/" ++ first) :: ws, IsWord w := by
      rw [List.forall_mem_cons] at hws ⊢
      refine ⟨⟨by simp, ?_⟩, hws.2⟩
      intro c hc
      rw [String.toList_append, List.mem_append] at hc
      rcases hc with hc | hc
      · obtain rfl : c = '/' := by simpa using hc
        rfl
      · exact hws.1.2 c hc
    rw [handle, handle, Request.ofLine?, Request.ofLine?, words_of_isLineOf hws hline,
      words_of_isLineOf hslashed hline', Request.ofWords?_slash hfirst]
  · exact fun line b b' => handle_eq_none

theorem handle_spaced_roll :
    let b := new (⟨[2, 5]⟩ : Script) .builtIn none
    let line := "\u3000roll\t\u00A02d6+1\r\n"
    (∀ w ∈ ["roll", "2d6+1"], IsWord w) ∧ "roll".toList.head? ≠ some '/' ∧
      IsLineOf ["roll", "2d6+1"] line ∧ IsLineOf ["/roll", "2d6+1"] "/roll 2d6+1" ∧
      handle ⟨1, 9⟩ line b = handle ⟨1, 9⟩ "roll 2d6+1" b ∧
      handle ⟨1, 9⟩ "/roll 2d6+1" b = handle ⟨1, 9⟩ line b ∧
      given (handle ⟨1, 9⟩ line b) = .ok (some "Total: 8\n2d6: 7 | 2, 5\nModifier: 1") ∧
      handle ⟨1, 9⟩ "\u2028 \u2003" b = .ok none b := by
  intro b line
  have hws : ∀ w ∈ ["roll", "2d6+1"], IsWord w := by decide
  have hfirst : "roll".toList.head? ≠ some '/' := by decide
  have hline : IsLineOf ["roll", "2d6+1"] line :=
    ⟨"\u3000", "\t\u00A02d6+1\r\n", by decide,
      @Follows.word "\t\u00A0" "2d6+1" "\r\n" [] (by decide) (by decide) (.blanks (by decide)),
      by decide⟩
  have hline' : IsLineOf ["/roll", "2d6+1"] "/roll 2d6+1" :=
    ⟨"", " 2d6+1", by decide,
      @Follows.word " " "2d6+1" "" [] (by decide) (by decide) (.blanks (by decide)), by decide⟩
  obtain ⟨hspaced, hslash, hblank⟩ := handle_spaced (ρ := Script) ⟨1, 9⟩
  have hsame : handle ⟨1, 9⟩ line b = handle ⟨1, 9⟩ "roll 2d6+1" b :=
    congrFun (hspaced _ line hws hline) b
  have hreply : given (handle ⟨1, 9⟩ "roll 2d6+1" b) =
      .ok (some "Total: 8\n2d6: 7 | 2, 5\nModifier: 1") := by
    decide +kernel
  exact ⟨hws, hfirst, hline, hline', hsame, congrFun (hslash _ _ _ _ hws hfirst hline hline') b,
    hsame ▸ hreply, (hblank _ b b).mpr ⟨by decide, rfl⟩⟩

end Bot

end DiceBot
