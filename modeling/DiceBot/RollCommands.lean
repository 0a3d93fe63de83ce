import DiceBot.Rolls

/-!
# Roll commands

A command makes one or more rolls in order, each as often as it is to be repeated.
-/
namespace DiceBot

structure Entry where
  roll : Roll
  repeats : Nat
  repeats_admitted : Limit.repeats.Admits repeats
  deriving DecidableEq, Repr

/-- The rolls of a command, of which there is at least one. -/
structure RollCommand where
  first : Entry
  others : List Entry
  deriving DecidableEq, Repr

namespace RollCommand

def entries (c : RollCommand) : List Entry := c.first :: c.others

/-- How many rolls the command makes, repeats counted. -/
def totalRolls (c : RollCommand) : Nat := (c.entries.map Entry.repeats).foldr (· + ·) 0

def ensureMaxRolls (c : RollCommand) (most : Nat) : Except Error Unit := do
  let _ ← (Limit.totalRolls most).check c.totalRolls

def ensureWithin (c : RollCommand) : Option Nat → Except Error Unit
  | none => .ok ()
  | some most => c.ensureMaxRolls most

end RollCommand

end DiceBot
