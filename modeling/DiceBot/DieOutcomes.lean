import DiceBot.Dice
import DiceBot.DieSources

/-!
# Rolling dice, and what they show

The dice of one term are rolled one after the other, each with a value of the
source. Totals are exact integers.
-/
namespace DiceBot

/-- Dice with the values they showed, in the order in which they were rolled. -/
structure DieOutcome where
  die : Die
  values : List Nat
  deriving DecidableEq, Repr

namespace DieOutcome

def subtotal (o : DieOutcome) : Nat := o.values.foldr (· + ·) 0

def signedTotal (o : DieOutcome) : Int :=
  if o.die.negative then -(o.subtotal : Int) else o.subtotal

/-- The single values are listed only if there are several. -/
def text (o : DieOutcome) : String :=
  o.die.text ++ ": " ++ toString o.subtotal
    ++ if o.values.length > 1 then " | " ++ ", ".intercalate (o.values.map toString) else ""

end DieOutcome

def Die.roll {ρ ε : Type} [Source ρ ε] (d : Die) : EStateM ε ρ DieOutcome := do
  let values ← (List.replicate d.count d.sides).mapM Source.face
  pure ⟨d, values⟩

end DiceBot
