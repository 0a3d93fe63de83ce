/-!
# The terms of dice notation as they are written

A term is a sign and either the digits of a number or the digits of a count and
of a number of sides around the letter `d`. Digits are kept as written, leading
zeros included.
-/
namespace DiceBot

/-- A signed dice term such as `-4d6`. -/
structure DiceTerm where
  negative : Bool
  count : String
  sides : String
  deriving DecidableEq, Repr

/-- A signed term of a roll: dice, or a number added to them. -/
inductive Term where
  | dice (term : DiceTerm)
  | modifier (negative : Bool) (magnitude : String)
  deriving DecidableEq, Repr

def signText (negative : Bool) : String := if negative then "-" else "+"

def DiceTerm.text (t : DiceTerm) : String :=
  signText t.negative ++ t.count ++ "d" ++ t.sides

def Term.text : Term → String
  | .dice t => t.text
  | .modifier negative magnitude => signText negative ++ magnitude

def writeTerms (terms : List Term) : String := String.join (terms.map Term.text)

end DiceBot
