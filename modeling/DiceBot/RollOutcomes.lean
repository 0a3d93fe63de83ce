import DiceBot.DieOutcomes
import DiceBot.Rolls

/-!
# Outcomes of rolls

An outcome holds what the kept dice showed and, where a roll was made twice, the
total that was not kept. A single term of dice without further parts is written on
one line; every other outcome on several, its total first.
-/
namespace DiceBot

def diceTotal (outcomes : List DieOutcome) : Int :=
  (outcomes.map DieOutcome.signedTotal).foldr (· + ·) 0

structure RollOutcome where
  dice : List DieOutcome
  modifiers : List Int
  mode : Mode
  losingTotal : Option Int
  deriving DecidableEq, Repr

namespace RollOutcome

/-- The sum of the dice alone. -/
def rollTotal (o : RollOutcome) : Int := diceTotal o.dice

def modifierTotal (o : RollOutcome) : Int := o.modifiers.foldr (· + ·) 0

def total (o : RollOutcome) : Int := o.rollTotal + o.modifierTotal

/-- The line about the modifiers, if there are any; several are listed. -/
def modifierLines (o : RollOutcome) : List String :=
  match o.modifiers with
  | [] => []
  | [_] => ["Modifier: " ++ toString o.modifierTotal]
  | modifiers =>
      ["Modifiers: " ++ toString o.modifierTotal ++ " | "
        ++ ", ".intercalate (modifiers.map toString)]

def losingLines (o : RollOutcome) : List String :=
  match o.losingTotal with
  | none => []
  | some total => ["Other roll: " ++ toString total]

def lines (o : RollOutcome) : List String :=
  match o.dice, o.modifiers, o.mode with
  | [single], [], .normal => [single.text]
  | _, _, _ =>
      ("Total: " ++ toString o.total) :: o.dice.map DieOutcome.text
        ++ o.modifierLines ++ o.losingLines

def text (o : RollOutcome) : String := "\n".intercalate o.lines

end RollOutcome

end DiceBot
