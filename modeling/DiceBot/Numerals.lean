import DiceBot.Errors

/-!
# Numerals held to a limit

A numeral is a run of decimal digits of any length, after a minus sign where the
number type has negative numbers. A number outside its limit is reported in
canonical form, and one that its number type cannot hold as it was written.
-/
namespace DiceBot

/-- The machine integers that numerals are read into. -/
inductive NumberType where
  | uint8 | uint16 | uint32 | int32
  deriving DecidableEq, Repr

namespace NumberType

def least : NumberType → Int
  | .int32 => -2147483648
  | _ => 0

def greatest : NumberType → Int
  | .uint8 => 255
  | .uint16 => 65535
  | .uint32 => 4294967295
  | .int32 => 2147483647

def Holds (t : NumberType) (n : Int) : Prop := t.least ≤ n ∧ n ≤ t.greatest

instance (t : NumberType) (n : Int) : Decidable (t.Holds n) :=
  inferInstanceAs (Decidable (_ ∧ _))

end NumberType

/-- The number that a run of decimal digits denotes; no digits denote none. -/
def digitsValue? (digits : List Char) : Option Nat :=
  if digits ≠ [] ∧ digits.all Char.isDigit then some (Nat.ofDigitChars 10 digits 0) else none

/-- The integer that a numeral of the type denotes, whether or not the type holds it. -/
def NumberType.value? : NumberType → List Char → Option Int
  | .int32, '-' :: digits => (digitsValue? digits).map fun n => -(n : Int)
  | _, digits => (digitsValue? digits).map fun n => (n : Int)

namespace Limit

/-- The proof that the limit admits the integer, or else the error that it does not. -/
def check (l : Limit) (n : Int) : Except Error (PLift (l.Admits n)) :=
  if h : l.Admits n then .ok ⟨h⟩ else .error (.outOfRange l (toString n))

def read (l : Limit) (t : NumberType) (text : String) : Except Error { n : Int // l.Admits n } :=
  match t.value? text.toList with
  | none => .error (.notANumber text)
  | some n =>
    if t.Holds n then do
      let ⟨h⟩ ← l.check n
      pure ⟨n, h⟩
    else .error (.outOfRange l text)

end Limit

end DiceBot
