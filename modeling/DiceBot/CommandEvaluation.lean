import DiceBot.RollCommands
import DiceBot.RollEvaluation

/-!
# Making the rolls of a command

Every repeat is a roll of its own. The rolls are made one at a time, so a source
that runs out ends a command of any length.
-/
namespace DiceBot

variable {ρ ε : Type} [Source ρ ε]

/-- Runs an action `n` times; its results follow those held, which are last first. -/
def repeatAfter {α : Type} (action : EStateM ε ρ α) : Nat → List α → EStateM ε ρ (List α)
  | 0, held => pure held.reverse
  | n + 1, held => do
      let result ← action
      repeatAfter action n (result :: held)

def Entry.evaluate (e : Entry) : EStateM ε ρ (List RollOutcome) :=
  repeatAfter e.roll.evaluate e.repeats []

namespace RollCommand

def evaluate (c : RollCommand) : EStateM ε ρ (List RollOutcome) :=
  List.flatten <$> c.entries.mapM Entry.evaluate

/-- Outcomes are written with an empty line between them. -/
def renderOutcomes (outcomes : List RollOutcome) : String :=
  "\n\n".intercalate (outcomes.map RollOutcome.text)

def evaluateAndRender (c : RollCommand) : EStateM ε ρ String :=
  renderOutcomes <$> c.evaluate

end RollCommand

end DiceBot
