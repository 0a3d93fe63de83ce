import DiceBot.Proofs.CommandGrammar
import DiceBot.Proofs.RollSequences

/-!
# Commands one behind the other

An argument that starts a roll closes the entry before it, and what follows is read as if it
stood alone. So the arguments of two commands in a row make one command, which makes the rolls
of both. Repeating a roll is the same as writing it down again and again, because what a
command does depends on the list of its rolls only.
-/
namespace DiceBot

namespace RollCommand

def append (c c' : RollCommand) : RollCommand := ⟨c.first, c.others ++ c'.entries⟩

theorem entries_append (c c' : RollCommand) : (c.append c').entries = c.entries ++ c'.entries :=
  rfl

theorem rolls_append (c c' : RollCommand) : (c.append c').rolls = c.rolls ++ c'.rolls := by
  rw [rolls, entries_append, List.flatMap_append, rolls, rolls]

private theorem renderOutcomes_append {outcomes outcomes' : List RollOutcome} (h : outcomes ≠ [])
    (h' : outcomes' ≠ []) :
    renderOutcomes (outcomes ++ outcomes') =
      renderOutcomes outcomes ++ "\n\n" ++ renderOutcomes outcomes' := by
  have hmap : outcomes.map RollOutcome.text ≠ [] := by simpa using h
  have hmap' : outcomes'.map RollOutcome.text ≠ [] := by simpa using h'
  rw [renderOutcomes, List.map_append, String.intercalate_append_of_ne_nil hmap hmap']
  rfl

/-- The command is a first one and then a second one, with an empty line between their texts. -/
structure IsSequence (c first second : RollCommand) : Prop where
  entries : c.entries = first.entries ++ second.entries
  text : ∀ (ρ ε : Type) [Source ρ ε], (c.evaluateAndRender : EStateM ε ρ String) = do
    let text ← first.evaluateAndRender
    let text' ← second.evaluateAndRender
    pure (text ++ "\n\n" ++ text')

/-- The commands have the same outcomes and the same text on every source, and leave it in the
same state. -/
structure Interchangeable (c c' : RollCommand) : Prop where
  outcomes : ∀ (ρ ε : Type) [Source ρ ε],
    (c.evaluate : EStateM ε ρ (List RollOutcome)) = c'.evaluate
  text : ∀ (ρ ε : Type) [Source ρ ε],
    (c.evaluateAndRender : EStateM ε ρ String) = c'.evaluateAndRender

theorem append_isSequence (c c' : RollCommand) : (c.append c').IsSequence c c' where
  entries := entries_append c c'
  text ρ ε _ := by
    obtain ⟨r, later, hrolls⟩ := c.exists_rolls_eq_cons
    obtain ⟨r', later', hrolls'⟩ := c'.exists_rolls_eq_cons
    have hrender (o o' : RollOutcome) (os os' : List RollOutcome) :
        renderOutcomes (o :: (os ++ o' :: os')) =
          renderOutcomes (o :: os) ++ "\n\n" ++ renderOutcomes (o' :: os') :=
      renderOutcomes_append (List.cons_ne_nil o os) (List.cons_ne_nil o' os')
    simp only [evaluateAndRender, evaluate_eq_mapM, rolls_append, hrolls, hrolls',
      List.mapM_append, List.mapM_cons, map_eq_pure_bind, bind_assoc, pure_bind,
      List.cons_append, hrender]

theorem interchangeable_of_rolls_eq {c c' : RollCommand} (h : c.rolls = c'.rolls) :
    c.Interchangeable c' := by
  have houtcomes (ρ ε : Type) [Source ρ ε] :
      (c.evaluate : EStateM ε ρ (List RollOutcome)) = c'.evaluate := by
    rw [evaluate_eq_mapM, evaluate_eq_mapM, h]
  refine ⟨houtcomes, fun ρ ε _ => ?_⟩
  rw [evaluateAndRender, evaluateAndRender, houtcomes]

private theorem continueWith_append {e : Entry} {args : List String} {c : RollCommand}
    (hc : continueWith e args = .ok c) {arg : String} (hroll : startsRoll arg)
    (later : List String) :
    continueWith e (args ++ arg :: later) = (ofArgs (arg :: later)).map c.append := by
  induction args generalizing e c with
  | nil =>
    cases hc
    rw [List.nil_append, continueWith, if_pos hroll, ofArgs, if_pos hroll]
    cases Roll.ofText arg .normal with
    | error err => rfl
    | ok r => cases hlater : continueWith (.once r) later <;> rw [ok_bind, ok_bind, hlater] <;> rfl
  | cons a args ih =>
    rw [continueWith] at hc
    rw [List.cons_append, continueWith]
    by_cases ha : startsRoll a
    · rw [if_pos ha] at hc ⊢
      obtain ⟨r, hr, hc⟩ := bind_eq_ok.mp hc
      obtain ⟨c', hc', hpure⟩ := bind_eq_ok.mp hc
      cases hpure
      rw [hr, ok_bind, ih hc']
      cases ofArgs (arg :: later) <;> rfl
    · rw [if_neg ha] at hc ⊢
      obtain ⟨e', he', hc⟩ := bind_eq_ok.mp hc
      rw [he', ok_bind, ih hc]

theorem exists_cons_of_ofArgs {args : List String} {c : RollCommand} (hc : ofArgs args = .ok c) :
    ∃ arg later, args = arg :: later ∧ startsRoll arg := by
  cases args with
  | nil => cases hc
  | cons arg later =>
    by_cases hroll : startsRoll arg
    · exact ⟨arg, later, rfl, hroll⟩
    · rw [ofArgs, if_neg hroll] at hc
      cases hc

theorem ofArgs_append {args : List String} {c : RollCommand} (hc : ofArgs args = .ok c)
    {arg : String} (hroll : startsRoll arg) (later : List String) :
    ofArgs (args ++ arg :: later) = (ofArgs (arg :: later)).map c.append := by
  obtain ⟨first, rest, rfl, hfirst⟩ := exists_cons_of_ofArgs hc
  rw [ofArgs, if_pos hfirst] at hc
  obtain ⟨r, hr, hc⟩ := bind_eq_ok.mp hc
  rw [List.cons_append, ofArgs, if_pos hfirst, hr, ok_bind]
  exact continueWith_append hc hroll later

/-- The arguments of a command, written several times, make its rolls as many times. -/
theorem ofArgs_copies {args : List String} {c : RollCommand} (hc : ofArgs args = .ok c) (n : Nat) :
    ∃ copies, ofArgs (List.replicate (n + 1) args).flatten = .ok copies ∧
      copies.rolls = (List.replicate (n + 1) c.rolls).flatten := by
  obtain ⟨arg, later, hargs, hroll⟩ := exists_cons_of_ofArgs hc
  induction n with
  | zero => exact ⟨c, by simpa using hc, by simp⟩
  | succ n ih =>
    obtain ⟨copies, hcopies, hrolls⟩ := ih
    have hstart : (List.replicate (n + 1) args).flatten =
        arg :: (later ++ (List.replicate n args).flatten) := by
      rw [List.replicate_succ, List.flatten_cons, hargs, List.cons_append]
    refine ⟨c.append copies, ?_, ?_⟩
    · rw [List.replicate_succ, List.flatten_cons, hstart, ofArgs_append hc hroll, ← hstart,
        hcopies]
      rfl
    · rw [rolls_append, hrolls, List.replicate_succ (n := n + 1), List.flatten_cons]

/-- Options are taken up by the entry in progress, one after the other. -/
theorem continueWith_options {options : List String} (hopts : ∀ arg ∈ options, ¬ startsRoll arg)
    (e : Entry) (rest : List String) :
    continueWith e (options ++ rest) =
      options.foldlM Entry.withOption e >>= (continueWith · rest) := by
  induction options generalizing e with
  | nil => rfl
  | cons arg options ih =>
    rw [List.forall_mem_cons] at hopts
    rw [List.cons_append, continueWith, if_neg hopts.1, List.foldlM_cons, bind_assoc]
    exact bind_congr fun e' => ih hopts.2 e'

private theorem foldlM_modes {modes : List String} {mode : Mode}
    (hmodes : ∀ m ∈ modes, IsModeArg m mode) {e : Entry}
    (he : e.roll.mode = .normal ∨ e.roll.mode = mode) :
    ∃ e', modes.foldlM Entry.withOption e = .ok e' ∧ e'.repeats = e.repeats := by
  induction modes generalizing e with
  | nil => exact ⟨e, rfl, rfl⟩
  | cons m modes ih =>
    rw [List.forall_mem_cons] at hmodes
    obtain ⟨e', hfold, hrepeats⟩ := ih (e := { e with roll := e.roll.withMode mode }) hmodes.2
      (.inr rfl)
    rw [List.foldlM_cons, Entry.withOption_mode hmodes.1, if_pos he, ok_bind]
    exact ⟨e', hfold, hrepeats⟩

/-- Mode arguments that do not name both modes name one. -/
theorem exists_mode {modes : List String} (hmodes : ∀ m ∈ modes, ∃ mode, IsModeArg m mode)
    (hboth : ¬ ((∃ m ∈ modes, IsModeArg m .advantage) ∧ ∃ m ∈ modes, IsModeArg m .disadvantage)) :
    ∃ mode, ∀ m ∈ modes, IsModeArg m mode := by
  have hnamed (m : String) (hm : m ∈ modes) :
      IsModeArg m .advantage ∨ IsModeArg m .disadvantage := by
    obtain ⟨mode, hmode⟩ := hmodes m hm
    exact hmode.advantage_or_disadvantage
  by_cases hadv : ∃ m ∈ modes, IsModeArg m .advantage
  · refine ⟨.advantage, fun m hm => ?_⟩
    rcases hnamed m hm with hmode | hmode
    · exact hmode
    · exact absurd ⟨hadv, m, hm, hmode⟩ hboth
  · refine ⟨.disadvantage, fun m hm => ?_⟩
    rcases hnamed m hm with hmode | hmode
    · exact absurd ⟨m, hm, hmode⟩ hadv
    · exact hmode

/-- A number of repeats behind a roll and its modes changes nothing but how often the roll is
made. -/
theorem ofArgs_repeats {arg x : String} {modes : List String} {mode : Mode} {r : Roll} {n : Nat}
    (hroll : startsRoll arg) (hr : Roll.ofText arg .normal = .ok r)
    (hmodes : ∀ m ∈ modes, IsModeArg m mode) (hx : IsRepeatArg x n)
    (hn : 1 ≤ n ∧ n ≤ 4294967295) :
    ∃ c once, ofArgs (arg :: modes ++ [x]) = .ok c ∧ ofArgs (arg :: modes) = .ok once ∧
      c.rolls = (List.replicate n once.rolls).flatten := by
  have hopts : ∀ m ∈ modes, ¬ startsRoll m := fun m hm => (hmodes m hm).not_startsRoll
  have hnormal : (Entry.once r).roll.mode = .normal := Roll.mode_of_ofText hr
  obtain ⟨e, hfold, hrepeats⟩ := foldlM_modes hmodes (.inl hnormal)
  obtain ⟨e', he', hsame, hrepeats'⟩ := Entry.withOption_repeats hx hn (e := e)
  refine ⟨⟨e', []⟩, ⟨e, []⟩, ?_, ?_, ?_⟩
  · rw [List.cons_append, ofArgs, if_pos hroll, hr, ok_bind, continueWith_options hopts, hfold,
      ok_bind, continueWith, if_neg hx.not_startsRoll, he']
    rfl
  · have hread := continueWith_options hopts (.once r) []
    rw [List.append_nil, hfold] at hread
    rw [ofArgs, if_pos hroll, hr, ok_bind, hread]
    rfl
  · have honce : e.repeats = 1 := hrepeats
    simp [rolls, entries, Entry.rolls, hsame, hrepeats', honce]

/-- Arguments that start a roll, put behind those of a command, are read as they are read
alone: their error is the error of the whole, and their command follows the first one. And a
roll with its modes and a number of repeats is the same as so many copies of the roll with its
modes. -/
theorem ofArgs_sequence :
    (∀ (args : List String) (first : RollCommand) (arg : String) (later : List String),
      ofArgs args = .ok first → startsRoll arg →
        (∀ e, ofArgs (arg :: later) = .error e → ofArgs (args ++ arg :: later) = .error e) ∧
        ∀ second, ofArgs (arg :: later) = .ok second →
          ∃ c, ofArgs (args ++ arg :: later) = .ok c ∧ c.IsSequence first second) ∧
    (∀ (arg : String) (modes : List String) (x : String) (n : Nat),
      startsRoll arg → (∃ r, Roll.ofText arg .normal = .ok r) →
      (∀ m ∈ modes, ∃ mode, IsModeArg m mode) →
      ¬ ((∃ m ∈ modes, IsModeArg m .advantage) ∧ ∃ m ∈ modes, IsModeArg m .disadvantage) →
      IsRepeatArg x n → 1 ≤ n → n ≤ 4294967295 →
        ∃ c copies, ofArgs (arg :: modes ++ [x]) = .ok c ∧
          ofArgs (List.replicate n (arg :: modes)).flatten = .ok copies ∧
          c.Interchangeable copies) := by
  constructor
  · intro args first arg later hfirst hroll
    have happend := ofArgs_append hfirst hroll later
    constructor
    · intro e he
      rw [happend, he]
      rfl
    · intro second hsecond
      rw [hsecond] at happend
      exact ⟨first.append second, happend, append_isSequence first second⟩
  · intro arg modes x n hroll hread hmodes hboth hx hle hge
    obtain ⟨r, hr⟩ := hread
    obtain ⟨mode, hmode⟩ := exists_mode hmodes hboth
    obtain ⟨c, once, hc, honce, hrolls⟩ := ofArgs_repeats hroll hr hmode hx ⟨hle, hge⟩
    obtain ⟨k, rfl⟩ := Nat.exists_eq_add_of_le' hle
    obtain ⟨copies, hcopies, hsame⟩ := ofArgs_copies honce k
    exact ⟨c, copies, hc, hcopies, interchangeable_of_rolls_eq (hrolls.trans hsame.symm)⟩

theorem ofArgs_sequence_attack :
    (∃ c first second, ofArgs ["1d20", "adv"] = .ok first ∧ ofArgs ["2d4", "x2"] = .ok second ∧
      ofArgs ["1d20", "adv", "2d4", "x2"] = .ok c ∧ c.IsSequence first second) ∧
    ∃ c copies, ofArgs ["1d20", "adv", "x3"] = .ok c ∧
      ofArgs ["1d20", "adv", "1d20", "adv", "1d20", "adv"] = .ok copies ∧
      c.Interchangeable copies := by
  have hroll : Roll.ofText "1d20" .normal = .ok
      ⟨[⟨1, 20, false, by decide, by decide⟩], [], .normal, by decide, by decide, by decide⟩ := by
    decide +kernel
  have hfirst : ofArgs ["1d20", "adv"] = .ok
      ⟨⟨⟨[⟨1, 20, false, by decide, by decide⟩], [], .advantage, by decide, by decide,
        by decide⟩, 1, by decide⟩, []⟩ := by
    decide +kernel
  have hsecond : ofArgs ["2d4", "x2"] = .ok
      ⟨⟨⟨[⟨2, 4, false, by decide, by decide⟩], [], .normal, by decide, by decide,
        by decide⟩, 2, by decide⟩, []⟩ := by
    decide +kernel
  have hadv : IsModeArg "adv" .advantage := Mode.ofWord?_eq_some.mp (by decide)
  have hmodes : ∀ m ∈ ["adv"], ∃ mode, IsModeArg m mode := by simpa using ⟨_, hadv⟩
  have hboth : ¬ ((∃ m ∈ ["adv"], IsModeArg m .advantage) ∧
      ∃ m ∈ ["adv"], IsModeArg m .disadvantage) := by
    rintro ⟨-, m, hm, hdis⟩
    rw [List.mem_singleton.mp hm] at hdis
    cases hadv.unique hdis
  have hx : IsRepeatArg "x3" 3 := ⟨"3", ⟨by decide, by decide⟩, by decide, by decide⟩
  constructor
  · obtain ⟨c, hc, hsequence⟩ :=
      (ofArgs_sequence.1 ["1d20", "adv"] _ "2d4" ["x2"] hfirst (by decide)).2 _ hsecond
    exact ⟨c, _, _, hfirst, hsecond, hc, hsequence⟩
  · exact ofArgs_sequence.2 "1d20" ["adv"] "x3" 3 (by decide) ⟨_, hroll⟩ hmodes hboth hx
      (by decide) (by decide)

end RollCommand

end DiceBot
