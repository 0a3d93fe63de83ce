import DiceBot.CommandReading
import DiceBot.Proofs.FallibleSteps
import DiceBot.Proofs.RollSequences
import Mathlib.Algebra.Ring.Nat
import Mathlib.Data.List.Forall2
import Mathlib.Data.List.SplitLengths

/-!
# Rolls on a script of values

How many values a command takes from a script is known before it is made. With fewer values
it takes all there are and fails. Otherwise the values are cut into slices, one for each roll
in the order in which the rolls are made, and each roll comes to what it comes to on its slice
alone. Within a slice the values go to the dice in the order in which they are written.
-/
namespace DiceBot

/-- The action takes exactly `n` values of a script, and they decide its result. Where the
script has fewer values, the action takes them all and fails. -/
structure Spends {α : Type} (action : EStateM ScriptEnd Script α) (n : Nat)
    (result : List Nat → α) : Prop where
  fails : ∀ values : List Nat, values.length < n → action ⟨values⟩ = .error .finished ⟨[]⟩
  returns : ∀ slice rest : List Nat, slice.length = n →
    action ⟨slice ++ rest⟩ = .ok (result slice) ⟨rest⟩

namespace Spends

variable {α β : Type} {x : EStateM ScriptEnd Script α} {n m : Nat} {p : List Nat → α}

theorem congr (h : Spends x n p) {q : List Nat → α} (hn : n = m)
    (hq : ∀ slice, slice.length = m → p slice = q slice) : Spends x m q := by
  subst hn
  refine ⟨h.fails, fun slice rest hlength => ?_⟩
  rw [h.returns slice rest hlength, hq slice hlength]

protected theorem pure (a : α) : Spends (pure a) 0 fun _ => a := by
  refine ⟨fun values hlength => absurd hlength (Nat.not_lt_zero _), fun slice rest hlength => ?_⟩
  rw [List.eq_nil_of_length_eq_zero hlength]
  rfl

protected theorem bind {f : α → EStateM ScriptEnd Script β} {q : α → List Nat → β}
    (hx : Spends x n p) (hf : ∀ a, Spends (f a) m (q a)) :
    Spends (x >>= f) (n + m) fun slice => q (p (slice.take n)) (slice.drop n) := by
  have hfirst (values : List Nat) (hn : n ≤ values.length) :
      x ⟨values⟩ = .ok (p (values.take n)) ⟨values.drop n⟩ := by
    have htake : (values.take n).length = n := List.length_take_of_le hn
    have hx := hx.returns (values.take n) (values.drop n) htake
    rwa [List.take_append_drop] at hx
  constructor
  · intro values hlength
    by_cases hn : values.length < n
    · exact bind_apply_of_error (hx.fails values hn) f
    · rw [bind_apply_of_ok (hfirst values (by omega))]
      exact (hf _).fails _ (by rw [List.length_drop]; omega)
  · intro slice rest hlength
    have hn : n ≤ slice.length := by omega
    rw [bind_apply_of_ok (hfirst (slice ++ rest) (by rw [List.length_append]; omega)),
      List.take_append_of_le_length hn, List.drop_append_of_le_length hn]
    exact (hf _).returns _ rest (by rw [List.length_drop]; omega)

protected theorem map (g : α → β) (hx : Spends x n p) :
    Spends (g <$> x) n fun slice => g (p slice) := by
  have hbind := hx.bind fun a => Spends.pure (g a)
  rw [bind_pure_comp] at hbind
  refine hbind.congr (Nat.add_zero n) fun slice hlength => ?_
  rw [List.take_of_length_le (Nat.le_of_eq hlength)]

theorem cons {y : EStateM ScriptEnd Script (List α)} {q : List Nat → List α}
    (hx : Spends x n p) (hy : Spends y m q) :
    Spends (do pure ((← x) :: (← y))) (n + m)
      fun slice => p (slice.take n) :: q (slice.drop n) :=
  hx.bind fun a => by simpa using hy.map (a :: ·)

/-- Actions that are run one after the other each take the next slice of the values. -/
theorem mapM {f : α → EStateM ScriptEnd Script β} {cost : α → Nat} {q : α → List Nat → β}
    (hf : ∀ a, Spends (f a) (cost a) (q a)) (l : List α) :
    Spends (l.mapM f) (l.map cost).sum
      fun slice => l.zipWith q ((l.map cost).splitLengths slice) := by
  induction l with
  | nil => exact Spends.pure []
  | cons a l ih =>
    rw [List.mapM_cons]
    refine ((hf a).cons ih).congr (by simp) fun slice _ => ?_
    simp

end Spends

/-- What dice show for the values that go to them: each the nearest of its faces. -/
def Die.showing (d : Die) (values : List Nat) : DieOutcome :=
  ⟨d, values.map fun value => max 1 (min value d.sides)⟩

namespace Roll

def diceCount (r : Roll) : Nat := (r.dice.map Die.count).sum

/-- How many values the roll takes: the dice are rolled once, or twice with advantage or
disadvantage. -/
def draws (r : Roll) : Nat := (if r.mode = .normal then 1 else 2) * r.diceCount

def deal (r : Roll) (values : List Nat) : List DieOutcome :=
  r.dice.zipWith Die.showing ((r.dice.map Die.count).splitLengths values)

/-- The outcome of a roll that takes the values of a slice. The first set of dice comes
before the second one. -/
def outcomeOn (r : Roll) (slice : List Nat) : RollOutcome :=
  if r.mode = .normal then ⟨r.deal slice, r.modifiers, r.mode, none⟩
  else r.choose (r.deal (slice.take r.diceCount)) (r.deal (slice.drop r.diceCount))

end Roll

def RollCommand.draws (c : RollCommand) : Nat :=
  (c.entries.map fun e => e.repeats * e.roll.draws).sum

private theorem spends_draw (sides : Nat) :
    Spends (Source.draw sides) 1 fun slice => slice.headD 0 := by
  constructor
  · intro values hlength
    rw [List.eq_nil_of_length_eq_zero (Nat.lt_one_iff.mp hlength)]
    rfl
  · intro slice rest hlength
    obtain ⟨value, rfl⟩ := List.length_eq_one_iff.mp hlength
    rfl

private theorem spends_faces (count sides : Nat) :
    Spends ((List.replicate count sides).mapM Source.face) count
      fun slice => slice.map fun value => max 1 (min value sides) := by
  induction count with
  | zero =>
    refine (Spends.pure []).congr rfl fun slice hlength => ?_
    rw [List.eq_nil_of_length_eq_zero hlength, List.map_nil]
  | succ count ih =>
    have hface := (spends_draw sides).map fun value => max 1 (min value sides)
    rw [List.replicate_succ, List.mapM_cons]
    refine (hface.cons ih).congr (Nat.add_comm 1 count) fun slice hlength => ?_
    obtain ⟨value, slice, rfl⟩ := List.exists_cons_of_length_eq_add_one hlength
    rfl

theorem Die.spends_roll (d : Die) : Spends d.roll d.count d.showing := by
  rw [roll, bind_pure_comp]
  exact (spends_faces d.count d.sides).map (DieOutcome.mk d)

namespace Roll

theorem spends_rollDice (r : Roll) : Spends r.rollDice r.diceCount r.deal :=
  Spends.mapM Die.spends_roll r.dice

theorem spends_evaluate (r : Roll) : Spends r.evaluate r.draws r.outcomeOn := by
  by_cases hmode : r.mode = .normal
  · have houtcome : r.outcomeOn = fun slice => ⟨r.deal slice, r.modifiers, r.mode, none⟩ :=
      funext fun slice => if_pos hmode
    rw [evaluate, draws, houtcome]
    simp only [if_pos hmode, bind_pure_comp, Nat.one_mul]
    exact r.spends_rollDice.map (RollOutcome.mk · r.modifiers r.mode none)
  · have houtcome : r.outcomeOn = fun slice =>
        r.choose (r.deal (slice.take r.diceCount)) (r.deal (slice.drop r.diceCount)) :=
      funext fun slice => if_neg hmode
    rw [evaluate, draws, houtcome]
    simp only [if_neg hmode, bind_pure_comp, Nat.two_mul]
    exact r.spends_rollDice.bind fun first => r.spends_rollDice.map (r.choose first)

end Roll

namespace RollCommand

theorem sum_draws_rolls (c : RollCommand) : (c.rolls.map Roll.draws).sum = c.draws := by
  have hentry (e : Entry) : (e.rolls.map Roll.draws).sum = e.repeats * e.roll.draws := by
    rw [Entry.rolls, List.map_replicate, List.sum_replicate_nat]
  rw [rolls, draws, List.map_flatMap, List.flatMap_def, List.sum_flatten, List.map_map]
  exact congrArg List.sum (List.map_congr_left fun e _ => hentry e)

theorem spends_evaluate (c : RollCommand) :
    Spends c.evaluate c.draws fun slice =>
      c.rolls.zipWith Roll.outcomeOn ((c.rolls.map Roll.draws).splitLengths slice) := by
  rw [c.evaluate_eq_mapM, ← c.sum_draws_rolls]
  exact Spends.mapM Roll.spends_evaluate c.rolls

/-- Cutting enough values leaves no slice short. -/
private theorem forall₂_slices (rolls : List Roll) {values : List Nat}
    (hle : (rolls.map Roll.draws).sum ≤ values.length) :
    List.Forall₂ (fun r slice => slice.length = r.draws) rolls
      ((rolls.map Roll.draws).splitLengths values) := by
  have hlengths := List.map_splitLengths_length values (rolls.map Roll.draws) hle
  have hall : List.Forall₂ Eq (rolls.map Roll.draws)
      (((rolls.map Roll.draws).splitLengths values).map List.length) := by
    rw [hlengths, List.forall₂_eq_eq_eq]
  rw [List.forall₂_map_left_iff, List.forall₂_map_right_iff] at hall
  exact hall.imp fun r slice => Eq.symm

/-- A command fails on a script just if the script has fewer values than the command takes,
and has used it up then. Otherwise it takes as many as it needs from the front, and each roll
comes to what it comes to on a script of its own slice of them. -/
theorem evaluate_script (c : RollCommand) (values : List Nat) :
    ((∃ s, c.evaluate (⟨values⟩ : Script) = .error .finished s) ↔ values.length < c.draws) ∧
    (∀ s, c.evaluate (⟨values⟩ : Script) = .error .finished s → s = ⟨[]⟩) ∧
    (c.draws ≤ values.length → ∃ slices : List (List Nat),
      slices.flatten = values.take c.draws ∧
      List.Forall₂ (fun r slice => slice.length = r.draws ∧
        r.evaluate (⟨slice⟩ : Script) = .ok (r.outcomeOn slice) ⟨[]⟩) c.rolls slices ∧
      c.evaluate (⟨values⟩ : Script) =
        .ok (c.rolls.zipWith Roll.outcomeOn slices) ⟨values.drop c.draws⟩) := by
  have henough (hle : c.draws ≤ values.length) :
      c.evaluate (⟨values⟩ : Script) = .ok (c.rolls.zipWith Roll.outcomeOn
        ((c.rolls.map Roll.draws).splitLengths (values.take c.draws)))
        ⟨values.drop c.draws⟩ := by
    have hreturns := c.spends_evaluate.returns (values.take c.draws) (values.drop c.draws)
      (List.length_take_of_le hle)
    rwa [List.take_append_drop] at hreturns
  have hlt {s : Script} (herror : c.evaluate (⟨values⟩ : Script) = .error .finished s) :
      values.length < c.draws := by
    apply Nat.lt_of_not_le
    intro hle
    rw [henough hle] at herror
    cases herror
  refine ⟨⟨?_, ?_⟩, ?_, ?_⟩
  · rintro ⟨s, herror⟩
    exact hlt herror
  · intro hfew
    exact ⟨⟨[]⟩, c.spends_evaluate.fails values hfew⟩
  · intro s herror
    have hfails := c.spends_evaluate.fails values (hlt herror)
    rw [herror] at hfails
    cases hfails
    rfl
  · intro hle
    have htake : (values.take c.draws).length = (c.rolls.map Roll.draws).sum := by
      rw [c.sum_draws_rolls, List.length_take_of_le hle]
    refine ⟨(c.rolls.map Roll.draws).splitLengths (values.take c.draws), ?_, ?_, henough hle⟩
    · exact List.flatten_splitLengths _ _ (Nat.le_of_eq htake)
    · refine (forall₂_slices c.rolls (Nat.le_of_eq htake.symm)).imp fun r slice hlength => ?_
      have hreturns := r.spends_evaluate.returns slice [] hlength
      rw [List.append_nil] at hreturns
      exact ⟨hlength, hreturns⟩

theorem evaluate_script_advantage :
    ∃ c, ofArgs ["1d20", "adv", "x2", "2d4+1"] = .ok c ∧ c.draws = 6 ∧
      6 ≤ [4, 11, 20, 20, 2, 3, 9].length ∧
      ∃ outcomes, c.evaluate (⟨[4, 11, 20, 20, 2, 3, 9]⟩ : Script) = .ok outcomes ⟨[9]⟩ := by
  have hread : ∃ c, ofArgs ["1d20", "adv", "x2", "2d4+1"] = .ok c ∧ c.draws = 6 :=
    ⟨⟨⟨⟨[⟨1, 20, false, by decide, by decide⟩], [], .advantage, by decide, by decide, by decide⟩,
        2, by decide⟩,
      [⟨⟨[⟨2, 4, false, by decide, by decide⟩], [1], .normal, by decide, by decide, by decide⟩,
        1, by decide⟩]⟩, by decide +kernel, by decide⟩
  obtain ⟨c, hc, hdraws⟩ := hread
  obtain ⟨slices, -, -, heval⟩ :=
    (evaluate_script c [4, 11, 20, 20, 2, 3, 9]).2.2 (by rw [hdraws]; decide)
  rw [hdraws] at heval
  exact ⟨c, hc, hdraws, by decide, _, heval⟩

end RollCommand

end DiceBot
