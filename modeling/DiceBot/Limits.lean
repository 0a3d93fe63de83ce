/-!
# Limits on the quantities of a roll

A limit names a quantity and the integers it may be, both ends included. The
named limits below are the ones that every die, roll and command is held to.
-/
namespace DiceBot

/-- A quantity by name, with the least and the greatest integer it may be. -/
structure Limit where
  what : String
  least : Int
  greatest : Int
  deriving DecidableEq, Repr

namespace Limit

def Admits (l : Limit) (n : Int) : Prop := l.least ≤ n ∧ n ≤ l.greatest

instance (l : Limit) (n : Int) : Decidable (l.Admits n) :=
  inferInstanceAs (Decidable (_ ∧ _))

/-- Where the limit has no negative integers, an admitted one is a natural number. -/
theorem Admits.toNat {l : Limit} {n : Int} (h : l.Admits n) (hl : 0 ≤ l.least) :
    l.Admits n.toNat := by
  rwa [Int.toNat_of_nonneg (Int.le_trans hl h.1)]

def dice : Limit := ⟨"Number of dice", 1, 100⟩

def sides : Limit := ⟨"Number of sides", 2, 1000⟩

/-- A number added to the dice of a roll, with its sign. -/
def modifier : Limit := ⟨"Modifier", -1000, 1000⟩

def repeats : Limit := ⟨"Roll count", 1, 4294967295⟩

/-- How many rolls a whole command makes, where at most `most` are allowed. -/
def totalRolls (most : Nat) : Limit := ⟨"Total number of rolls", 1, most⟩

end Limit

/-- How many terms, dice and modifiers together, one roll may have. -/
def maxParts : Nat := 25

end DiceBot
