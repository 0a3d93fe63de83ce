import DiceBot.Proofs.OutcomeBlocks
import DiceBot.Proofs.ShownDice

/-!
# What the text of an outcome tells

The first character of a line tells what the line is about. The parts of a line are cut apart at
characters that the parts themselves lack, and every number is written in one way. So the text of
an outcome tells everything about it but whether a roll that was made twice was made with
advantage or with disadvantage.
-/
namespace DiceBot

section
variable {c : Char} {separator : String} {rest : List Char}

/-- Texts are cut apart at the first character that the text in front lacks. -/
theorem Lacks.append_inj {a a' b b' : String} (hs : separator.toList = c :: rest)
    (ha : Lacks c a) (ha' : Lacks c a') (h : a ++ separator ++ b = a' ++ separator ++ b') :
    a = a' ∧ b = b' := by
  have hchars : a.toList ++ c :: (rest ++ b.toList) = a'.toList ++ c :: (rest ++ b'.toList) := by
    simpa [← String.toList_inj, hs] using h
  have hcut {front behind : List Char} (hfront : c ∉ front) :
      (front ++ c :: behind).takeWhile (· ≠ c) = front := by
    have hall : ∀ d ∈ front, decide (d ≠ c) = true := by
      rintro d hd
      simpa using ne_of_mem_of_not_mem hd hfront
    rw [List.takeWhile_append_of_pos hall]
    simp
  have hfront : a.toList = a'.toList := by rw [← hcut ha, hchars, hcut ha']
  rw [hfront] at hchars
  have hbehind := List.append_cancel_left (List.cons.inj (List.append_cancel_left hchars)).2
  exact ⟨String.toList_inj.mp hfront, String.toList_inj.mp hbehind⟩

private theorem Lacks.ne_append {a a' b : String} (hs : separator.toList = c :: rest)
    (ha : Lacks c a) :
    a ≠ a' ++ separator ++ b := by
  rintro rfl
  simp [Lacks, hs] at ha

/-- Texts that lack the first character of their separator are told apart in a list. -/
theorem intercalate_inj {texts texts' : List String} (hs : separator.toList = c :: rest)
    (h : ∀ text ∈ texts, Lacks c text) (h' : ∀ text ∈ texts', Lacks c text) (hne : texts ≠ [])
    (hne' : texts' ≠ []) (heq : separator.intercalate texts = separator.intercalate texts') :
    texts = texts' := by
  induction texts generalizing texts' with
  | nil => exact absurd rfl hne
  | cons a texts ih =>
    obtain ⟨a', texts', rfl⟩ := List.exists_cons_of_ne_nil hne'
    rw [List.forall_mem_cons] at h h'
    cases texts with
    | nil =>
      cases texts' with
      | nil => simpa using heq
      | cons b' texts' =>
        rw [String.intercalate_cons_cons, String.intercalate_singleton] at heq
        exact absurd heq (h.1.ne_append hs)
    | cons b texts =>
      cases texts' with
      | nil =>
        rw [String.intercalate_cons_cons, String.intercalate_singleton] at heq
        exact absurd heq.symm (h'.1.ne_append hs)
      | cons b' texts' =>
        rw [String.intercalate_cons_cons, String.intercalate_cons_cons] at heq
        obtain ⟨rfl, hlater⟩ := Lacks.append_inj hs h.1 h'.1 heq
        rw [ih h.2 h'.2 (List.cons_ne_nil _ _) (List.cons_ne_nil _ _) hlater]

end

/-- Values behind a total can be read off a line: the total has no blank, and no value is written
like another one or with a comma. -/
theorem values_inj {α : Type} [ToString α] (hinj : Function.Injective (toString : α → String))
    (hcomma : ∀ value : α, Lacks ',' (toString value)) {total total' : String}
    (ht : Lacks ' ' total) (ht' : Lacks ' ' total') {values values' : List α} (hne : values ≠ [])
    (hne' : values' ≠ [])
    (h : total ++ " | " ++ ", ".intercalate (values.map toString) =
      total' ++ " | " ++ ", ".intercalate (values'.map toString)) : values = values' := by
  have htexts (values : List α) : ∀ text ∈ values.map toString, Lacks ',' text := by
    intro text htext
    obtain ⟨value, -, rfl⟩ := List.mem_map.mp htext
    exact hcomma value
  have hbar : " | ".toList = ' ' :: ['|', ' '] := by simp
  have hseparator : ", ".toList = ',' :: [' '] := by simp
  obtain ⟨-, hlist⟩ := Lacks.append_inj hbar ht ht' h
  have hmap := intercalate_inj hseparator (htexts values) (htexts values') (by simpa using hne)
    (by simpa using hne') hlist
  exact List.map_injective_iff.mpr hinj hmap

namespace Die

/-- Behind its sign, the count of a die is a numeral. -/
theorem isNumeral_count (d : Die) : IsNumeral ((if d.negative then "-" else "") ++ toString d.count)
    (signedValue d.negative d.count) :=
  ⟨d.negative, toString d.count, isDigits_toString _, rfl, by rw [decimal_toString]⟩

theorem text_injective : Function.Injective text := by
  intro d d' h
  have hletter : "d".toList = ['d'] := by simp
  have hlacks (d : Die) := d.isNumeral_count.lacks (c := 'd') (by decide) (by decide)
  obtain ⟨hcount, hsides⟩ := Lacks.append_inj hletter (hlacks d) (hlacks d') h
  have hsigned := (hcount ▸ d.isNumeral_count).unique d'.isNumeral_count
  have hpositive := d.count_bounds.1
  have hpositive' := d'.count_bounds.1
  have hparts : d.negative = d'.negative ∧ d.count = d'.count := by
    revert hsigned
    cases d.negative <;> cases d'.negative <;> simp [signedValue] <;> omega
  cases d
  cases d'
  cases hparts.1
  cases hparts.2
  cases toString_nat_injective hsides
  rfl

end Die

namespace DieOutcome

variable {o o' : DieOutcome}

def shown (o : DieOutcome) : String :=
  toString o.subtotal
    ++ if o.values.length > 1 then " | " ++ ", ".intercalate (o.values.map toString) else ""

theorem text_eq (o : DieOutcome) : o.text = o.die.text ++ ": " ++ o.shown := by
  simp only [text, shown, String.append_assoc]

private theorem shown_of_several (h : o.values.length > 1) :
    o.shown = toString o.subtotal ++ " | " ++ ", ".intercalate (o.values.map toString) := by
  rw [shown, if_pos h, String.append_assoc]

private theorem shown_of_single {value : Nat} (h : o.values = [value]) :
    o.shown = toString value := by
  simp [shown, subtotal, h]

/-- As many values are read off the text as there are dice. -/
theorem values_of_shown (hcount : 1 ≤ o.values.length)
    (hlength : o.values.length = o'.values.length) (h : o.shown = o'.shown) :
    o.values = o'.values := by
  by_cases hseveral : o.values.length > 1
  · have hseveral' := hlength ▸ hseveral
    have hne : o.values ≠ [] := List.ne_nil_of_length_pos (by omega)
    have hne' : o'.values ≠ [] := List.ne_nil_of_length_pos (by omega)
    have hblank (n : Nat) : Lacks ' ' (toString n) := lacks_toString_nat (by decide) n
    rw [shown_of_several hseveral, shown_of_several hseveral'] at h
    exact values_inj toString_nat_injective (lacks_toString_nat (by decide)) (hblank _) (hblank _)
      hne hne' h
  · obtain ⟨value, hvalue⟩ := List.length_eq_one_iff.mp (show o.values.length = 1 by omega)
    obtain ⟨value', hvalue'⟩ := List.length_eq_one_iff.mp (show o'.values.length = 1 by omega)
    rw [shown_of_single hvalue, shown_of_single hvalue'] at h
    rw [hvalue, hvalue', toString_nat_injective h]

private theorem IsRolled.text_inj (h : o.IsRolled) (h' : o'.IsRolled) (htext : o.text = o'.text) :
    o = o' := by
  have hcolon : ": ".toList = ':' :: [' '] := by simp
  have hlacks (d : Die) : Lacks ':' d.text := d.lacks_text (by decide) (by decide) (by decide)
  rw [text_eq, text_eq] at htext
  obtain ⟨hdie, hshown⟩ := Lacks.append_inj hcolon (hlacks _) (hlacks _) htext
  have hdie := Die.text_injective hdie
  have hlength : o.values.length = o'.values.length := by rw [h.count, h'.count, hdie]
  have hvalues := values_of_shown (h.count ▸ o.die.count_bounds.1) hlength hshown
  cases o
  cases o'
  cases hdie
  cases hvalues
  rfl

end DieOutcome

inductive Topic where
  | total | dice | modifiers | losing
  deriving DecidableEq

/-- Dice are written with a digit or a sign first, all else with the first letter of its title. -/
def topicOf (line : String) : Topic :=
  match line.toList.head? with
  | some 'T' => .total
  | some 'M' => .modifiers
  | some 'O' => .losing
  | _ => .dice

private theorem topicOf_of_head {line : String} {c : Char} {rest : List Char}
    (h : line.toList = c :: rest) (hc : c = '-' ∨ c.isDigit) : topicOf line = .dice := by
  rw [topicOf, h, List.head?_cons]
  rcases hc with rfl | hdigit
  · rfl
  · split <;> simp_all

/-- A numeral starts with its sign or its first digit. -/
theorem IsNumeral.exists_cons {text : String} {n : Int} (h : IsNumeral text n) :
    ∃ c rest, text.toList = c :: rest ∧ (c = '-' ∨ c.isDigit) := by
  obtain ⟨negative, digits, hd, rfl, -⟩ := h
  cases negative with
  | true => exact ⟨'-', digits.toList, by simp, .inl rfl⟩
  | false =>
    obtain ⟨c, rest, hdigits, hc, -⟩ := hd.exists_cons
    exact ⟨c, rest, by simpa using hdigits, .inr hc⟩

private theorem DieOutcome.topicOf_text (o : DieOutcome) : topicOf o.text = .dice := by
  obtain ⟨c, rest, hcount, hc⟩ := o.die.isNumeral_count.exists_cons
  have hchars : o.text.toList =
      c :: (rest ++ ("d" ++ toString o.die.sides ++ ": " ++ o.shown).toList) := by
    rw [← List.cons_append, ← hcount, ← String.toList_append, text_eq, Die.text]
    simp only [String.append_assoc]
  exact topicOf_of_head hchars hc

namespace RollOutcome

/-- The line of the total, unless the outcome is written on one line. -/
def totalLines (o : RollOutcome) : List String :=
  match o.dice, o.modifiers, o.mode with
  | [_], [], .normal => []
  | _, _, _ => ["Total: " ++ toString o.total]

def linesAbout (o : RollOutcome) : Topic → List String
  | .total => o.totalLines
  | .dice => o.dice.map DieOutcome.text
  | .modifiers => o.modifierLines
  | .losing => o.losingLines

private theorem topicOf_totalLines (o : RollOutcome) :
    ∀ line ∈ o.totalLines, topicOf line = .total := by
  intro line hline
  unfold totalLines at hline
  split at hline
  · cases hline
  · rw [List.mem_singleton.mp hline]
    simp [topicOf]

private theorem topicOf_modifierLines (o : RollOutcome) :
    ∀ line ∈ o.modifierLines, topicOf line = .modifiers := by
  intro line hline
  unfold modifierLines at hline
  split at hline
  · cases hline
  all_goals
    rw [List.mem_singleton.mp hline]
    simp [topicOf]

private theorem topicOf_losingLines (o : RollOutcome) :
    ∀ line ∈ o.losingLines, topicOf line = .losing := by
  intro line hline
  unfold losingLines at hline
  split at hline
  · cases hline
  · rw [List.mem_singleton.mp hline]
    simp [topicOf]

private theorem topicOf_linesAbout (o : RollOutcome) (topic : Topic) :
    ∀ line ∈ o.linesAbout topic, topicOf line = topic := by
  cases topic with
  | total => exact o.topicOf_totalLines
  | dice =>
    intro line hline
    obtain ⟨outcome, -, rfl⟩ := List.mem_map.mp hline
    exact outcome.topicOf_text
  | modifiers => exact o.topicOf_modifierLines
  | losing => exact o.topicOf_losingLines

/-- A roll made once has no other total, so nothing is left out of its one line but the total. -/
theorem lines_eq {o : RollOutcome} (h : o.mode = .normal → o.losingTotal = none) :
    o.lines = o.linesAbout .total ++ o.linesAbout .dice ++ o.linesAbout .modifiers ++
      o.linesAbout .losing := by
  obtain ⟨dice, modifiers, mode, losingTotal⟩ := o
  simp only [lines, linesAbout, totalLines]
  split
  next single =>
    have hlosing : losingTotal = none := h rfl
    subst hlosing
    rfl
  next => simp

private theorem filter_linesAbout (o : RollOutcome) (topic other : Topic) :
    (o.linesAbout other).filter (topicOf · = topic) =
      if other = topic then o.linesAbout other else [] := by
  have htopic := o.topicOf_linesAbout other
  split
  · subst other
    exact List.filter_eq_self.mpr fun line hline => by simpa using htopic line hline
  · rename_i hne
    exact List.filter_eq_nil_iff.mpr fun line hline => by simpa [htopic line hline] using hne

/-- The lines about a topic are the ones with its first character. -/
theorem filter_lines {o : RollOutcome} (h : o.mode = .normal → o.losingTotal = none)
    (topic : Topic) : o.lines.filter (topicOf · = topic) = o.linesAbout topic := by
  rw [lines_eq h]
  simp only [List.filter_append, filter_linesAbout]
  cases topic <;> simp

/-- One modifier is written alone, several behind their sum. -/
theorem modifierLines_cases (o : RollOutcome) :
    o.modifiers = [] ∧ o.modifierLines = [] ∨
      (∃ m, o.modifiers = [m] ∧ o.modifierLines = ["Modifier: " ++ toString m]) ∨
      o.modifiers ≠ [] ∧ o.modifierLines = ["Modifiers: " ++ (toString o.modifierTotal ++ (" | " ++
        ", ".intercalate (o.modifiers.map toString)))] := by
  unfold modifierLines
  split
  · exact .inl ⟨‹_›, rfl⟩
  · rename_i m hmodifiers
    refine .inr (.inl ⟨m, hmodifiers, ?_⟩)
    simp [modifierTotal, hmodifiers]
  · rename_i hne _
    refine .inr (.inr ⟨hne, ?_⟩)
    rw [String.append_assoc, String.append_assoc]

/-- The title of one modifier is the start of no line about several. -/
theorem modifier_ne_modifiers (text text' : String) :
    "Modifier: " ++ text ≠ "Modifiers: " ++ text' := by
  simp [← String.toList_inj]

private theorem modifierLines_inj {o o' : RollOutcome} (h : o.modifierLines = o'.modifierLines) :
    o.modifiers = o'.modifiers := by
  rcases o.modifierLines_cases with ⟨hnone, hlines⟩ | ⟨m, hone, hlines⟩ | ⟨hne, hlines⟩ <;>
    rcases o'.modifierLines_cases with
      ⟨hnone', hlines'⟩ | ⟨m', hone', hlines'⟩ | ⟨hne', hlines'⟩ <;>
    rw [hlines, hlines'] at h
  case inl.inl => rw [hnone, hnone']
  case inr.inl.inr.inl =>
    have hm := (String.append_right_inj _).mp (List.singleton_inj.mp h)
    rw [hone, hone', toString_int_injective hm]
  case inr.inl.inr.inr => exact (modifier_ne_modifiers _ _ (List.singleton_inj.mp h)).elim
  case inr.inr.inr.inl => exact (modifier_ne_modifiers _ _ (List.singleton_inj.mp h).symm).elim
  case inr.inr.inr.inr =>
    have hblank (n : Int) : Lacks ' ' (toString n) := lacks_toString_int (by decide) (by decide) n
    have hlist := (String.append_right_inj _).mp (List.singleton_inj.mp h)
    rw [← String.append_assoc, ← String.append_assoc] at hlist
    exact values_inj toString_int_injective (lacks_toString_int (by decide) (by decide))
      (hblank _) (hblank _) hne hne' hlist
  all_goals cases h

private theorem losingLines_inj {o o' : RollOutcome} (h : o.losingLines = o'.losingLines) :
    o.losingTotal = o'.losingTotal := by
  rw [losingLines, losingLines] at h
  cases hlosing : o.losingTotal <;> cases hlosing' : o'.losingTotal <;>
    simp only [hlosing, hlosing'] at h
  · rfl
  · cases h
  · cases h
  · have htotal := (String.append_right_inj _).mp (List.singleton_inj.mp h)
    rw [toString_int_injective htotal]

/-- The outcomes are the same but for which of the two sets of dice their modes prefer. -/
structure SameButMode (o o' : RollOutcome) : Prop where
  dice : o.dice = o'.dice
  modifiers : o.modifiers = o'.modifiers
  total : o.total = o'.total
  losingTotal : o.losingTotal = o'.losingTotal
  mode : o.mode = o'.mode ∨ o.mode = .advantage ∧ o'.mode = .disadvantage ∨
    o.mode = .disadvantage ∧ o'.mode = .advantage

private theorem lines_of_twice {o : RollOutcome} (h : o.mode ≠ .normal) :
    o.lines = ("Total: " ++ toString o.total) :: o.dice.map DieOutcome.text
      ++ o.modifierLines ++ o.losingLines := by
  unfold lines
  split
  · exact absurd ‹_› h
  · rfl

variable {o o' : RollOutcome}

theorem lines_inj (h : o.text = o'.text) : o.lines = o'.lines := by
  apply List.map_injective_iff.mpr fun _ _ => String.toList_inj.mp
  rw [← splitOn_text, ← splitOn_text, h]

/-- Neither of the two modes is named in the text. -/
theorem SameButMode.text_eq (h : SameButMode o o') : o.text = o'.text := by
  obtain ⟨dice, modifiers, mode, losingTotal⟩ := o
  obtain ⟨dice', modifiers', mode', losingTotal'⟩ := o'
  obtain ⟨rfl, rfl, -, rfl, hmode⟩ := h
  rcases hmode with hsame | ⟨hmode, hmode'⟩ | ⟨hmode, hmode'⟩
  · exact congrArg (fun mode => (RollOutcome.mk dice modifiers mode losingTotal).text) hsame
  all_goals
    cases hmode
    cases hmode'
    rw [text, text, lines_of_twice (by simp), lines_of_twice (by simp)]
    rfl

end RollOutcome

private theorem map_text_inj {outcomes outcomes' : List DieOutcome} (h : ∀ o ∈ outcomes, o.IsRolled)
    (h' : ∀ o ∈ outcomes', o.IsRolled)
    (htexts : outcomes.map DieOutcome.text = outcomes'.map DieOutcome.text) :
    outcomes = outcomes' := by
  induction outcomes generalizing outcomes' with
  | nil => exact (List.map_eq_nil_iff.mp htexts.symm).symm
  | cons o outcomes ih =>
    obtain ⟨o', outcomes', rfl, htext, hlater⟩ := List.map_eq_cons_iff.mp htexts.symm
    rw [List.forall_mem_cons] at h h'
    rw [h.1.text_inj h'.1 htext.symm, ih h.2 h'.2 hlater.symm]

namespace Roll

variable {r r' : Roll} {o o' : RollOutcome}

/-- Only a roll that is made once has no losing total. -/
theorem HasOutcome.losingTotal_eq_none (h : r.HasOutcome o) :
    o.losingTotal = none ↔ o.mode = .normal := by
  rw [h.mode]
  refine ⟨fun hnone => ?_, h.once⟩
  by_contra hmode
  obtain ⟨other, -, hsome⟩ := h.twice hmode
  rw [hnone] at hsome
  cases hsome

theorem HasOutcome.sameButMode (h : r.HasOutcome o) (h' : r'.HasOutcome o')
    (htext : o.text = o'.text) : o.SameButMode o' := by
  have habout (topic : Topic) : o.linesAbout topic = o'.linesAbout topic := by
    rw [← RollOutcome.filter_lines h.losingTotal_eq_none.mpr,
      ← RollOutcome.filter_lines h'.losingTotal_eq_none.mpr, RollOutcome.lines_inj htext]
  have hdice : o.dice = o'.dice := map_text_inj h.shows.rolled h'.shows.rolled (habout .dice)
  have hmodifiers : o.modifiers = o'.modifiers := RollOutcome.modifierLines_inj (habout .modifiers)
  have hlosing : o.losingTotal = o'.losingTotal := RollOutcome.losingLines_inj (habout .losing)
  have hnormal : o.mode = .normal ↔ o'.mode = .normal := by
    rw [← h.losingTotal_eq_none, ← h'.losingTotal_eq_none, hlosing]
  refine ⟨hdice, hmodifiers, ?_, hlosing, ?_⟩
  · rw [RollOutcome.total_eq, RollOutcome.total_eq, hdice, hmodifiers]
  · cases hmode : o.mode <;> cases hmode' : o'.mode <;> simp_all

/-- The texts of two outcomes are the same just if the outcomes have the same dice with the same
values, the same modifiers, total and losing total, and at most their modes differ, one being
advantage and the other disadvantage. -/
theorem evaluate_text_eq_iff {ρ ε ρ' ε' : Type} [Source ρ ε] [Source ρ' ε'] {s s₁ : ρ} {t t₁ : ρ'}
    (h : r.evaluate s = .ok o s₁) (h' : r'.evaluate t = .ok o' t₁) :
    o.text = o'.text ↔ o.SameButMode o' :=
  ⟨(hasOutcome_of_evaluate h).sameButMode (hasOutcome_of_evaluate h'), fun hsame => hsame.text_eq⟩

/-- The two modes come to the same text in a tie, here on two kinds of sources. -/
theorem evaluate_text_eq_iff_tie : ∃ better worse,
    (Roll.mk [⟨1, 6, false, by decide, by decide⟩] [-1] .advantage (by decide) (by decide)
      (by decide)).evaluate (⟨[3, 3]⟩ : Script) = .ok better ⟨[]⟩ ∧
    (Roll.mk [⟨1, 6, false, by decide, by decide⟩] [-1] .disadvantage (by decide) (by decide)
      (by decide)).evaluate (⟨3⟩ : Fixed) = .ok worse ⟨3⟩ ∧
    better.text = "Total: 2\n1d6: 3\nModifier: -1\nOther roll: 2" ∧ better.text = worse.text ∧
      better.SameButMode worse ∧ better.mode ≠ worse.mode := by
  obtain ⟨better, hbetter, hmode, htext⟩ : ∃ better, (Roll.mk [⟨1, 6, false, by decide, by decide⟩]
      [-1] .advantage (by decide) (by decide) (by decide)).evaluate (⟨[3, 3]⟩ : Script) =
        .ok better ⟨[]⟩ ∧ better.mode = .advantage ∧
      better.text = "Total: 2\n1d6: 3\nModifier: -1\nOther roll: 2" :=
    ⟨_, rfl, rfl, by decide +kernel⟩
  obtain ⟨worse, hworse, hmode', htext'⟩ : ∃ worse, (Roll.mk [⟨1, 6, false, by decide, by decide⟩]
      [-1] .disadvantage (by decide) (by decide) (by decide)).evaluate (⟨3⟩ : Fixed) =
        .ok worse ⟨3⟩ ∧ worse.mode = .disadvantage ∧
      worse.text = "Total: 2\n1d6: 3\nModifier: -1\nOther roll: 2" :=
    ⟨_, rfl, rfl, by decide +kernel⟩
  have hsame : better.text = worse.text := htext.trans htext'.symm
  refine ⟨better, worse, hbetter, hworse, htext, hsame, ?_, by simp [hmode, hmode']⟩
  exact (evaluate_text_eq_iff hbetter hworse).mp hsame

end Roll

end DiceBot
