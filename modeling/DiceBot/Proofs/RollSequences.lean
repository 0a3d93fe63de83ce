import DiceBot.CommandEvaluation

/-!
# The rolls that a command makes, one after the other

With its repeats written out, a command is a list of rolls. Making the command is making
these rolls in order on one source, so that a fact about a sequence of rolls is proved by
induction on a list, whatever entries and repeats the sequence comes from.
-/
namespace DiceBot

def Entry.rolls (e : Entry) : List Roll := List.replicate e.repeats e.roll

namespace RollCommand

def rolls (c : RollCommand) : List Roll := c.entries.flatMap Entry.rolls

/-- Every entry makes its roll at least once. -/
theorem exists_rolls_eq_cons (c : RollCommand) : ∃ r later, c.rolls = r :: later := by
  have hrepeats : c.first.repeats ≠ 0 := by
    have hle := c.first.repeats_admitted.1
    simp only [Limit.repeats] at hle
    omega
  obtain ⟨n, hn⟩ := Nat.exists_eq_succ_of_ne_zero hrepeats
  rw [rolls, entries, List.flatMap_cons, Entry.rolls, hn, List.replicate_succ, List.cons_append]
  exact ⟨_, _, rfl⟩

end RollCommand

variable {ρ ε : Type}

private theorem repeatAfter_eq {α β : Type} (f : α → EStateM ε ρ β) (a : α) (n : Nat)
    (held : List β) :
    repeatAfter (f a) n held = (held.reverse ++ ·) <$> (List.replicate n a).mapM f := by
  induction n generalizing held with
  | zero => simp [repeatAfter]
  | succ n ih => simp [repeatAfter, List.replicate_succ, ih]

/-- Lists that are gone through one after the other are gone through as one list. -/
theorem flatten_mapM {α β γ : Type} (f : β → EStateM ε ρ γ) (g : α → List β) (l : List α) :
    List.flatten <$> l.mapM (fun a => (g a).mapM f) = (l.flatMap g).mapM f := by
  induction l with
  | nil => simp
  | cons a l ih =>
    rw [List.flatMap_cons, List.mapM_append, ← ih]
    simp

variable [Source ρ ε]

theorem Entry.evaluate_eq_mapM (e : Entry) :
    (e.evaluate : EStateM ε ρ (List RollOutcome)) = e.rolls.mapM Roll.evaluate := by
  rw [evaluate, repeatAfter_eq Roll.evaluate, rolls]
  simp

theorem RollCommand.evaluate_eq_mapM (c : RollCommand) :
    (c.evaluate : EStateM ε ρ (List RollOutcome)) = c.rolls.mapM Roll.evaluate := by
  have hentries : (Entry.evaluate : Entry → EStateM ε ρ (List RollOutcome)) =
      fun e => e.rolls.mapM Roll.evaluate := funext Entry.evaluate_eq_mapM
  rw [evaluate, hentries, flatten_mapM, rolls]

end DiceBot
