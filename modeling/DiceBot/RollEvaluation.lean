import DiceBot.RollOutcomes

/-!
# Making a roll

In the normal mode the dice are rolled once. With advantage or disadvantage they
are all rolled a second time, and the two sets are compared as wholes: the second
set is kept only if its total is strictly better for the mode.
-/
namespace DiceBot

variable {ρ ε : Type} [Source ρ ε]

def Roll.rollDice (r : Roll) : EStateM ε ρ (List DieOutcome) := r.dice.mapM Die.roll

/-- A total that is strictly better than another one in the mode. -/
def Mode.Prefers : Mode → Int → Int → Prop
  | .normal, _, _ => False
  | .advantage, total, other => other < total
  | .disadvantage, total, other => total < other

instance (mode : Mode) (total other : Int) : Decidable (mode.Prefers total other) := by
  cases mode <;> unfold Mode.Prefers <;> infer_instance

/-- The outcome that keeps one set of dice and only the total of the other. -/
def Roll.keep (r : Roll) (kept other : List DieOutcome) : RollOutcome :=
  ⟨kept, r.modifiers, r.mode, some (diceTotal other + r.modifierTotal)⟩

def Roll.choose (r : Roll) (first second : List DieOutcome) : RollOutcome :=
  if r.mode.Prefers (diceTotal second) (diceTotal first) then r.keep second first
  else r.keep first second

def Roll.evaluate (r : Roll) : EStateM ε ρ RollOutcome := do
  let first ← r.rollDice
  if r.mode = .normal then
    pure ⟨first, r.modifiers, r.mode, none⟩
  else
    let second ← r.rollDice
    pure (r.choose first second)

end DiceBot
