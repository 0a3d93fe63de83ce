import DiceBot.Numerals
import DiceBot.TermScanning

/-!
# Dice

A die is a number of equal dice rolled together, added to a roll or taken away
from it. Its numbers are within their limits by construction.
-/
namespace DiceBot

/-- Some dice with the same number of sides, such as `4d6`. -/
structure Die where
  count : Nat
  sides : Nat
  negative : Bool
  count_admitted : Limit.dice.Admits count
  sides_admitted : Limit.sides.Admits sides
  deriving DecidableEq, Repr

namespace Die

theorem count_bounds (d : Die) : 1 ≤ d.count ∧ d.count ≤ 100 :=
  ⟨Int.ofNat_le.mp d.count_admitted.1, Int.ofNat_le.mp d.count_admitted.2⟩

theorem sides_bounds (d : Die) : 2 ≤ d.sides ∧ d.sides ≤ 1000 :=
  ⟨Int.ofNat_le.mp d.sides_admitted.1, Int.ofNat_le.mp d.sides_admitted.2⟩

/-- Dice of the given numbers; the count is checked first. -/
def ofCounts (count sides : Nat) (negative : Bool) : Except Error Die := do
  let ⟨hc⟩ ← Limit.dice.check count
  let ⟨hs⟩ ← Limit.sides.check sides
  pure ⟨count, sides, negative, hc, hs⟩

/-- The dice that a written term stands for; the count is read first. -/
def ofTerm (term : DiceTerm) : Except Error Die := do
  let ⟨count, hc⟩ ← Limit.dice.read .uint8 term.count
  let ⟨sides, hs⟩ ← Limit.sides.read .uint16 term.sides
  pure ⟨count.toNat, sides.toNat, term.negative,
    hc.toNat (by decide), hs.toNat (by decide)⟩

/-- The dice that a text such as `2d6`, `+1d20` or `-1d4` stands for. -/
def ofText (text : String) : Except Error Die := do
  let term ← (DiceTerm.ofText text).mapError (Misreading.toError text)
  ofTerm term

def text (d : Die) : String :=
  (if d.negative then "-" else "") ++ toString d.count ++ "d" ++ toString d.sides

end Die

end DiceBot
