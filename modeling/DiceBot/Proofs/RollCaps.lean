import DiceBot.Proofs.LineEffects
import DiceBot.Proofs.RelatedSources
import DiceBot.Proofs.SavedRollReplay

/-!
# No line makes more rolls than allowed

Where a bot has a bound on the rolls of one request, a line that rolls has passed it. The parts
of a roll and the dice of a part are bounded, too, so a line makes so many rolls at most and
draws so many values for each. The draws are counted by the source itself: it can be replaced by
one that counts, and nothing else is different.
-/
namespace DiceBot

namespace Roll

private theorem diceCount_le (r : Roll) : r.diceCount ≤ 2500 := by
  have hsum : r.diceCount ≤ r.dice.length * 100 :=
    sum_map_le fun d _ => d.count_bounds.2
  have hparts : r.dice.length ≤ 25 := Nat.le_trans (Nat.le_add_right _ _) r.parts_le
  omega

theorem draws_le (r : Roll) : r.draws ≤ 5000 := by
  have hdice := r.diceCount_le
  rw [draws]
  split <;> omega

end Roll

theorem RollCommand.draws_le (c : RollCommand) : c.draws ≤ 5000 * c.totalRolls := by
  have hsum : (c.rolls.map Roll.draws).sum ≤ c.rolls.length * 5000 :=
    sum_map_le fun r _ => r.draws_le
  rw [c.sum_draws_rolls, c.length_rolls] at hsum
  omega

/-- A source and how many draws were made from it, whether they failed or not. -/
structure Counted (ρ : Type) where
  source : ρ
  draws : Nat

def Counted.after {ρ : Type} (s : Counted ρ) (source : ρ) : Counted ρ := ⟨source, s.draws + 1⟩

instance {ρ ε : Type} [Source ρ ε] : Source (Counted ρ) ε where
  draw sides := fun s =>
    match Source.draw sides s.source with
    | .ok value source => .ok value (s.after source)
    | .error e source => .error e (s.after source)

def Counted.AtMost {ρ : Type} (n : Nat) (s : Counted ρ) (t : ρ) : Prop :=
  s.source = t ∧ s.draws ≤ n

private theorem Counted.keptByDraws {ρ ε : Type} [Source ρ ε] :
    KeptByDraws (ε := ε) (Counted.AtMost (ρ := ρ)) where
  mono hle h := ⟨h.1, Nat.le_trans h.2 hle⟩
  draw sides n s t := by
    rintro ⟨rfl, hdraws⟩
    have hafter (source : ρ) : Counted.AtMost (n + 1) (s.after source) source :=
      ⟨rfl, Nat.succ_le_succ hdraws⟩
    change SameResult _ (match Source.draw sides s.source with
      | .ok value source => .ok value (s.after source)
      | .error e source => .error e (s.after source)) (Source.draw sides s.source)
    cases Source.draw sides s.source with
    | ok value source => exact .ok (hafter source)
    | error e source => exact .error (hafter source)

def Effect.draws : Effect → Nat
  | .reply _ | .change _ => 0
  | .roll command => command.draws

namespace Bot

variable {ρ ε : Type} [Source ρ ε] {b : Bot ρ} {owner : Owner} {line : String} {most : Nat}

def counting (b : Bot ρ) : Bot (Counted ρ) := ⟨⟨b.source, 0⟩, b.saved, b.texts, b.maxRolls⟩

def uncounted (b : Bot (Counted ρ)) : Bot ρ := ⟨b.source.source, b.saved, b.texts, b.maxRolls⟩

def drawsFor (b : Bot ρ) (owner : Owner) (line : String) : Nat :=
  (b.counting.next owner line).source.draws

example : (new (⟨[3, 4, 5]⟩ : Script) .builtIn none).drawsFor ⟨1, 9⟩ "roll 2d6" = 2 ∧
    (new (⟨[3]⟩ : Script) .builtIn none).drawsFor ⟨1, 9⟩ "roll 2d6" = 2 := by
  decide +kernel

omit [Source ρ ε] in
private theorem effect_counting (b : Bot ρ) (owner : Owner) (line : String) :
    b.counting.effect owner line = b.effect owner line := rfl

theorem handle_counting (b : Bot ρ) (owner : Owner) (line : String) :
    SameResult (fun c c' => c.uncounted = c' ∧ c.source.draws ≤ (b.effect owner line).draws)
      (handle owner line b.counting) (handle owner line b) := by
  rw [handle_eq_carryOut, handle_eq_carryOut, effect_counting]
  cases b.effect owner line with
  | reply text => exact .ok ⟨rfl, Nat.le_refl 0⟩
  | change change => exact .ok ⟨rfl, Nat.le_refl 0⟩
  | roll command =>
    have hstart : Counted.AtMost 0 b.counting.source b.source := ⟨rfl, Nat.le_refl 0⟩
    have hdraws := Alike.evaluateAndRender Counted.keptByDraws command 0 _ _ hstart
    refine (hdraws.withSource some).mono ?_
    rintro _ _ ⟨s, t, ⟨rfl, hle⟩, rfl, rfl⟩
    refine ⟨rfl, ?_⟩
    rwa [Nat.zero_add] at hle

theorem drawsFor_le (b : Bot ρ) (owner : Owner) (line : String) :
    b.drawsFor owner line ≤ (b.effect owner line).draws :=
  (handle_counting b owner line).stateLeft.2

omit [Source ρ ε] in
/-- A request for more rolls than allowed is answered with the error. -/
theorem effect_exceeded {args : List String} {command : RollCommand}
    (hmost : b.maxRolls = some most) (hasked : b.AsksFor owner line args)
    (hread : RollCommand.ofArgs args = .ok command) (hexceeded : most < command.totalRolls) :
    b.effect owner line = .reply (some (command.tooManyRolls most).message) := by
  have hwithin : RollCommand.ofArgsWithin b.maxRolls args =
      .error (command.tooManyRolls most) := by
    rw [RollCommand.ofArgsWithin, hread, ok_bind, hmost, RollCommand.ensureWithin,
      RollCommand.ensureMaxRolls_eq_error hexceeded]
    rfl
  obtain ⟨request, hline, hplan⟩ := hasked.exists_plan
  rw [hwithin] at hplan
  exact effect_refused hline hplan

/-- What a line may make of a source while `most` rolls are allowed. -/
structure Capped (b : Bot ρ) (most : Nat) (owner : Owner) (line : String) : Prop where
  /-- Either no roll is made, or those of a command are, of which there are `most` at most. -/
  rolls : (∃ text saved, handle owner line b = .ok text { b with saved }) ∧
      b.drawsFor owner line = 0 ∨
    ∃ args command, b.AsksFor owner line args ∧ RollCommand.ofArgs args = .ok command ∧
      command.rolls.length ≤ most ∧
      handle owner line b = (some <$> withSource
        (RollCommand.renderOutcomes <$> command.rolls.mapM Roll.evaluate)) b
  draws : b.drawsFor owner line ≤ 5000 * most
  /-- Counting the draws makes no difference. -/
  counting : SameResult (fun c c' => c.uncounted = c') (handle owner line b.counting)
    (handle owner line b)
  exceeded : ∀ args command, b.AsksFor owner line args →
    RollCommand.ofArgs args = .ok command → most < command.totalRolls →
      handle owner line b = .ok (some (command.tooManyRolls most).message) b ∧
        b.drawsFor owner line = 0

theorem drawsFor_eq_zero (h : ∀ command, b.effect owner line ≠ .roll command) :
    b.drawsFor owner line = 0 := by
  have hle := drawsFor_le b owner line
  cases heffect : b.effect owner line with
  | reply text =>
    rw [heffect] at hle
    exact Nat.le_zero.mp hle
  | change change =>
    rw [heffect] at hle
    exact Nat.le_zero.mp hle
  | roll command => exact absurd heffect (h command)

omit [Source ρ ε] in
theorem draws_effect_le (hmost : b.maxRolls = some most) :
    (b.effect owner line).draws ≤ 5000 * most := by
  cases heffect : b.effect owner line with
  | reply text => exact Nat.zero_le _
  | change change => exact Nat.zero_le _
  | roll command =>
    obtain ⟨-, -, -, hcap⟩ := effect_eq_roll heffect
    calc command.draws ≤ 5000 * command.totalRolls := command.draws_le
      _ ≤ 5000 * most := Nat.mul_le_mul_left _ (hcap most hmost)

theorem capped (hmost : b.maxRolls = some most) (owner : Owner) (line : String) :
    b.Capped most owner line where
  rolls := by
    cases heffect : b.effect owner line with
    | reply text =>
      exact .inl ⟨⟨text, b.saved, handle_of_reply heffect⟩, drawsFor_eq_zero (by simp [heffect])⟩
    | change change =>
      exact .inl ⟨⟨_, _, handle_of_change heffect⟩, drawsFor_eq_zero (by simp [heffect])⟩
    | roll command =>
      obtain ⟨args, hasked, hread, hcap⟩ := effect_eq_roll heffect
      refine .inr ⟨args, command, hasked, hread, ?_, ?_⟩
      · rw [command.length_rolls]
        exact hcap most hmost
      · rw [handle_of_roll heffect, RollCommand.evaluateAndRender, command.evaluate_eq_mapM]
  draws := Nat.le_trans (drawsFor_le b owner line) (draws_effect_le hmost)
  counting := (handle_counting b owner line).mono fun _ _ h => h.1
  exceeded args command hasked hread hexceeded := by
    have heffect := effect_exceeded hmost hasked hread hexceeded
    exact ⟨handle_of_reply heffect, drawsFor_eq_zero (by simp [heffect])⟩

/-- The number of rolls is the sum of the repeats and the number of outcomes, and it is what a
bound is compared with. So in every state that a bot with a bound comes to, no line of anyone
makes more rolls than allowed, and none draws more than 5000 values for each of them. -/
theorem run_capped :
    (∀ c : RollCommand, c.entries.length < UInt32.size → c.Totals) ∧
    ∀ {ρ ε : Type} [Source ρ ε] (b : Bot ρ) (most : Nat), b.maxRolls = some most →
      ∀ lines owner line, (b.run lines).Capped most owner line := by
  refine ⟨fun c hlength => RollCommand.totals hlength, ?_⟩
  intro ρ ε _ b most hmost lines owner line
  exact capped (by rw [run_maxRolls, hmost]) owner line

theorem run_capped_attack :
    ∃ c, RollCommand.ofArgs ["1d20", "adv", "x3", "2d6"] = .ok c ∧
      c.entries.length < UInt32.size ∧ c.Totals ∧
      ((new (⟨[7, 15]⟩ : Script) .builtIn (some 3)).run [(⟨1, 9⟩, "save attack 1d20 x3")]).Capped
        3 ⟨1, 9⟩ "use attack" := by
  obtain ⟨c, hread, hlength⟩ : ∃ c, RollCommand.ofArgs ["1d20", "adv", "x3", "2d6"] = .ok c ∧
      c.entries.length < UInt32.size :=
    ⟨⟨⟨⟨[⟨1, 20, false, by decide, by decide⟩], [], .advantage, by decide, by decide, by decide⟩,
        3, by decide⟩,
      [⟨⟨[⟨2, 6, false, by decide, by decide⟩], [], .normal, by decide, by decide, by decide⟩,
        1, by decide⟩]⟩, by decide +kernel, by decide⟩
  have hcapped := run_capped.2 (new (⟨[7, 15]⟩ : Script) .builtIn (some 3)) 3 rfl
    [(⟨1, 9⟩, "save attack 1d20 x3")] ⟨1, 9⟩ "use attack"
  exact ⟨c, hread, hlength, run_capped.1 c hlength, hcapped⟩

end Bot

end DiceBot
