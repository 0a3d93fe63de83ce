import DiceBot.CommandReading
import DiceBot.Proofs.LineTexts
import DiceBot.Proofs.RollTotals

/-!
# The outcomes in the text of a command

Every outcome is written on lines of which none is empty, and an empty line stands between any
two outcomes. So cutting the text of a command at its empty lines gives back the texts of the
outcomes, one for each roll.
-/
namespace DiceBot

/-- Characters cut at every two line feeds that follow each other, from the left. -/
def blocksOf : List Char → List (List Char)
  | [] => [[]]
  | '\n' :: '\n' :: rest => [] :: blocksOf rest
  | c :: rest => (blocksOf rest).modifyHead (c :: ·)

def textBlocks (text : String) : List String := (blocksOf text.toList).map String.ofList

example : textBlocks "1d6: 2\n\n\n1d6: 5" = ["1d6: 2", "\n1d6: 5"] := by
  decide +kernel

/-- A text with something on each of its lines. -/
structure IsBlock (text : String) : Prop where
  ne_empty : text ≠ ""
  noEmptyLine : ¬ ['\n', '\n'] <:+: text.toList
  starts : text.toList.head? ≠ some '\n'
  ends : text.toList.getLast? ≠ some '\n'

private theorem IsBlock.of_splitOn {text : String} (h : [] ∉ text.toList.splitOn '\n') :
    IsBlock text := by
  have hcut (before after : List Char) (htext : text.toList = before ++ '\n' :: after) :
      [] ∉ before.splitOn '\n' ∧ [] ∉ after.splitOn '\n' := by
    rw [htext, List.splitOn_append_cons_self, List.mem_append, not_or] at h
    exact h
  constructor
  · rintro rfl
    simp at h
  · rintro ⟨before, after, htext⟩
    have hrest := (hcut before ('\n' :: after) (by simpa using htext.symm)).2
    rw [← List.nil_append ('\n' :: after), List.splitOn_append_cons_self] at hrest
    simp at hrest
  · intro hhead
    obtain ⟨after, htext⟩ := List.head?_eq_some_iff.mp hhead
    simpa using (hcut [] after htext).1
  · intro hlast
    obtain ⟨before, htext⟩ := List.getLast?_eq_some_iff.mp hlast
    simpa using (hcut before [] htext).2

theorem blocksOf_cons {c : Char} {cs : List Char} (h : ¬ (c = '\n' ∧ cs.head? = some '\n')) :
    blocksOf (c :: cs) = (blocksOf cs).modifyHead (c :: ·) := by
  rw [blocksOf]
  rintro rest rfl rfl
  exact h ⟨rfl, rfl⟩

/-- Two line feeds that follow each other inside a list do so at its start or behind it. -/
private theorem not_both_feeds {c : Char} {cs : List Char} (h : ¬ ['\n', '\n'] <:+: c :: cs) :
    ¬ (c = '\n' ∧ cs.head? = some '\n') ∧ ¬ ['\n', '\n'] <:+: cs := by
  refine ⟨?_, fun hcs => h (hcs.trans (List.suffix_cons c cs).isInfix)⟩
  rintro ⟨rfl, hhead⟩
  obtain ⟨rest, rfl⟩ := List.head?_eq_some_iff.mp hhead
  exact h ⟨[], rest, rfl⟩

private theorem blocksOf_single {cs : List Char} (h : ¬ ['\n', '\n'] <:+: cs) :
    blocksOf cs = [cs] := by
  induction cs with
  | nil => rfl
  | cons c cs ih =>
    obtain ⟨hstart, hrest⟩ := not_both_feeds h
    rw [blocksOf_cons hstart, ih hrest]
    rfl

private theorem blocksOf_append {cs : List Char} (h : ¬ ['\n', '\n'] <:+: cs)
    (hends : cs.getLast? ≠ some '\n') (rest : List Char) :
    blocksOf (cs ++ '\n' :: '\n' :: rest) = cs :: blocksOf rest := by
  induction cs with
  | nil => rw [List.nil_append, blocksOf]
  | cons c cs ih =>
    obtain ⟨hstart, hrest⟩ := not_both_feeds h
    cases cs with
    | nil =>
      have hc : c ≠ '\n' := by simpa using hends
      rw [List.singleton_append, blocksOf_cons (by simp [hc])]
      rfl
    | cons d cs =>
      rw [List.getLast?_cons_cons] at hends
      rw [List.cons_append, blocksOf_cons (by simpa using hstart), ih hrest hends]
      rfl

private theorem textBlocks_intercalate {blocks : List String} (hne : blocks ≠ [])
    (h : ∀ block ∈ blocks, IsBlock block) : textBlocks ("\n\n".intercalate blocks) = blocks := by
  induction blocks with
  | nil => exact absurd rfl hne
  | cons block blocks ih =>
    rw [List.forall_mem_cons] at h
    obtain ⟨hblock, hblocks⟩ := h
    cases blocks with
    | nil => simp [textBlocks, blocksOf_single hblock.noEmptyLine]
    | cons block' blocks =>
      have hchars : ("\n\n".intercalate (block :: block' :: blocks)).toList =
          block.toList ++ '\n' :: '\n' :: ("\n\n".intercalate (block' :: blocks)).toList := by
        simp [String.intercalate_cons_cons]
      have hlater := ih (List.cons_ne_nil _ _) hblocks
      rw [textBlocks] at hlater
      rw [textBlocks, hchars, blocksOf_append hblock.noEmptyLine hblock.ends, List.map_cons,
        hlater, String.ofList_toList]

structure IsFilled (line : String) : Prop where
  oneLine : OneLine line
  ne_empty : line ≠ ""

theorem Die.lacks_text {c : Char} (hc : c.isDigit = false) (hminus : c ≠ '-') (hletter : c ≠ 'd')
    (d : Die) : Lacks c d.text := by
  have hcount := (lacks_sign hminus d.negative).append (lacks_toString_nat hc d.count)
  have hd : Lacks c "d" := by simpa [Lacks] using hletter
  exact (hcount.append hd).append (lacks_toString_nat hc d.sides)

private theorem Die.oneLine_text (d : Die) : OneLine d.text :=
  d.lacks_text (by decide) (by decide) (by decide)

private theorem DieOutcome.isFilled_text (o : DieOutcome) : IsFilled o.text := by
  have hcolon : OneLine ": " := by decide
  have hbar : OneLine " | " := by decide
  have hlist : OneLine (if o.values.length > 1 then
      " | " ++ ", ".intercalate (o.values.map toString) else "") := by
    split
    · exact hbar.append (oneLine_values oneLine_toString_nat o.values)
    · decide
  constructor
  · exact ((o.die.oneLine_text.append hcolon).append (oneLine_toString_nat _)).append hlist
  · simp [DieOutcome.text]

/-- A line that is a title and what it says. -/
theorem isFilled_titled {title text : String} (hne : title ≠ "") (ht : OneLine title)
    (h : OneLine text) : IsFilled (title ++ text) :=
  ⟨ht.append h, by simp [hne]⟩

namespace RollOutcome

private theorem isFilled_modifierLines (o : RollOutcome) :
    ∀ line ∈ o.modifierLines, IsFilled line := by
  have htotal := oneLine_toString_int o.modifierTotal
  intro line hline
  unfold modifierLines at hline
  split at hline
  · cases hline
  · rw [List.mem_singleton.mp hline]
    exact isFilled_titled (by decide) (by decide) htotal
  · have hlist := oneLine_values oneLine_toString_int o.modifiers
    have hbar : OneLine " | " := by decide
    rw [List.mem_singleton.mp hline, String.append_assoc, String.append_assoc]
    exact isFilled_titled (by decide) (by decide) (htotal.append (hbar.append hlist))

private theorem isFilled_losingLines (o : RollOutcome) : ∀ line ∈ o.losingLines, IsFilled line := by
  intro line hline
  unfold losingLines at hline
  split at hline
  · cases hline
  · rw [List.mem_singleton.mp hline]
    exact isFilled_titled (by decide) (by decide) (oneLine_toString_int _)

theorem isFilled_lines (o : RollOutcome) : ∀ line ∈ o.lines, IsFilled line := by
  intro line hline
  unfold lines at hline
  split at hline
  · rw [List.mem_singleton.mp hline]
    exact DieOutcome.isFilled_text _
  · rw [List.cons_append, List.cons_append, List.mem_cons, List.mem_append,
      List.mem_append] at hline
    rcases hline with rfl | (hline | hline) | hline
    · exact isFilled_titled (by decide) (by decide) (oneLine_toString_int _)
    · obtain ⟨outcome, -, rfl⟩ := List.mem_map.mp hline
      exact outcome.isFilled_text
    · exact o.isFilled_modifierLines line hline
    · exact o.isFilled_losingLines line hline

private theorem lines_ne_nil (o : RollOutcome) : o.lines ≠ [] := by
  unfold lines
  split <;> simp

/-- Cut at its line feeds, the text of an outcome is its lines. -/
theorem splitOn_text (o : RollOutcome) :
    o.text.toList.splitOn '\n' = o.lines.map String.toList :=
  splitOn_intercalate_lines o.lines_ne_nil fun line hline => (o.isFilled_lines line hline).oneLine

theorem isBlock_text (o : RollOutcome) : IsBlock o.text := by
  apply IsBlock.of_splitOn
  rw [splitOn_text]
  intro hnil
  obtain ⟨line, hline, hempty⟩ := List.mem_map.mp hnil
  exact (o.isFilled_lines line hline).ne_empty (String.toList_eq_nil_iff.mp hempty)

end RollOutcome

namespace RollCommand

theorem textBlocks_renderOutcomes {outcomes : List RollOutcome} (hne : outcomes ≠ []) :
    textBlocks (renderOutcomes outcomes) = outcomes.map RollOutcome.text := by
  apply textBlocks_intercalate
  · simpa using hne
  · intro block hblock
    obtain ⟨o, -, rfl⟩ := List.mem_map.mp hblock
    exact o.isBlock_text

/-- On a source that does not fail, the text of a command cut at its empty lines is the texts of
its outcomes in order. They are as many as the command makes rolls, and none of them has an empty
line or a line feed at one of its ends. -/
theorem evaluateAndRender_blocks {ρ ε : Type} [Source ρ ε] {c : RollCommand} {s s' : ρ}
    {outcomes : List RollOutcome} (h : c.evaluate s = .ok outcomes s') :
    ∃ text, c.evaluateAndRender s = .ok text s' ∧
      textBlocks text = outcomes.map RollOutcome.text ∧
      (textBlocks text).length = c.totalRolls ∧
      ∀ block ∈ textBlocks text, IsBlock block := by
  have hlength := length_of_evaluate h
  have hne : outcomes ≠ [] := by
    rintro rfl
    have hpos := c.totalRolls_pos
    simp only [List.length_nil] at hlength
    omega
  have hblocks := textBlocks_renderOutcomes hne
  refine ⟨renderOutcomes outcomes, map_apply_eq_ok.mpr ⟨outcomes, h, rfl⟩, hblocks, ?_, ?_⟩
  · rw [hblocks, List.length_map, hlength]
  · rw [hblocks]
    intro block hblock
    obtain ⟨o, -, rfl⟩ := List.mem_map.mp hblock
    exact o.isBlock_text

theorem evaluateAndRender_blocks_mixed : ∃ c outcomes text,
    ofArgs ["1d20", "x2", "2d4-1+0", "dis"] = .ok c ∧
    c.evaluate (⟨[4, 11, 2, 3, 1, 1]⟩ : Script) = .ok outcomes ⟨[]⟩ ∧
    c.evaluateAndRender (⟨[4, 11, 2, 3, 1, 1]⟩ : Script) = .ok text ⟨[]⟩ ∧
    textBlocks text = outcomes.map RollOutcome.text ∧ (textBlocks text).length = c.totalRolls ∧
      textBlocks text = ["1d20: 4", "1d20: 11",
        "Total: 1\n2d4: 2 | 1, 1\nModifiers: -1 | -1, 0\nOther roll: 4"] := by
  obtain ⟨c, hc, outcomes, houtcomes, htexts⟩ : ∃ c,
      ofArgs ["1d20", "x2", "2d4-1+0", "dis"] = .ok c ∧ ∃ outcomes,
        c.evaluate (⟨[4, 11, 2, 3, 1, 1]⟩ : Script) = .ok outcomes ⟨[]⟩ ∧
        outcomes.map RollOutcome.text = ["1d20: 4", "1d20: 11",
          "Total: 1\n2d4: 2 | 1, 1\nModifiers: -1 | -1, 0\nOther roll: 4"] :=
    ⟨_, rfl, _, rfl, by decide +kernel⟩
  obtain ⟨text, htext, hblocks, hlength, -⟩ := evaluateAndRender_blocks houtcomes
  exact ⟨c, outcomes, text, hc, houtcomes, htext, hblocks, hlength, hblocks.trans htexts⟩

end RollCommand

end DiceBot
