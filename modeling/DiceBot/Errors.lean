import DiceBot.Limits

/-!
# Errors shown to whoever asked for a roll

An error says what was wrong with a request. A text that cannot be read is an
error with the place of the fault, counted in bytes of the text, and the fault
itself; the words for each fault and each error are given once, here.
-/
namespace DiceBot

/-- A stretch of a text, from byte `start` up to but without byte `stop`. -/
structure Span where
  start : Nat
  stop : Nat
  deriving DecidableEq, Repr

/-- The stretch one byte earlier; an end at the very beginning stays there. -/
def Span.pred (s : Span) : Span := ⟨s.start - 1, s.stop - 1⟩

/-- What has to come next in a term that breaks off. -/
inductive Wanted where
  | sign | signOrDigits | digits | letter
  deriving DecidableEq, Repr

def Wanted.text : Wanted → String
  | .sign => "sign"
  | .signOrDigits => "sign, or digits"
  | .digits => "digits"
  | .letter => "'d'"

inductive Fault where
  /-- The text ends where something has to come next. -/
  | missing (wanted : Wanted)
  /-- A character stands where none of its kind can stand. -/
  | unexpected
  /-- Signed terms begin with a character that is no sign. -/
  | unsigned (found : Char)
  | noDice
  | optionBeforeRoll
  | bothModes
  | unknownArgument
  | noRolls
  | noName
  | notOneName
  /-- A fault in the words of whoever found it. -/
  | described (reason : String)
  deriving DecidableEq, Repr

def Fault.reason : Fault → String
  | .missing wanted => "found end of input expected " ++ wanted.text
  | .unexpected => "found end of input expected something else"
  | .unsigned found => "found " ++ found.toString ++ " expected sign"
  | .noDice => "a roll needs at least one dice term"
  | .optionBeforeRoll => "expected a roll before any options"
  | .bothModes => "a roll can't have both advantage and disadvantage"
  | .unknownArgument => "expected a roll, advantage/disadvantage, or x<count>"
  | .noRolls => "expected at least one roll"
  | .noName => "expected a name for the roll"
  | .notOneName => "expected exactly one roll name"
  | .described reason => reason

inductive Error where
  | invalidSyntax (input : String) (span : Span) (fault : Fault)
  /-- The value is kept as text, since it may be too large for any number type. -/
  | outOfRange (limit : Limit) (value : String)
  | tooManyParts (count most : Nat)
  | notANumber (text : String)
  | doesNotExist (name : String)
  deriving DecidableEq, Repr

namespace Error

def ofWhole (input : String) (fault : Fault) : Error :=
  .invalidSyntax input ⟨0, input.utf8ByteSize⟩ fault

def isSyntax : Error → Bool
  | .invalidSyntax .. => true
  | _ => false

def message : Error → String
  | .invalidSyntax input _ fault =>
      "invalid syntax in \"" ++ input ++ "\": " ++ fault.reason
  | .outOfRange limit value =>
      limit.what ++ " must be between " ++ toString limit.least ++ " and "
        ++ toString limit.greatest ++ " (got " ++ value ++ ")"
  | .tooManyParts count most =>
      "a roll may only have up to " ++ toString most ++ " parts ("
        ++ toString count ++ " given)"
  | .notANumber text => "\"" ++ text ++ "\" is not a number"
  | .doesNotExist name => "no saved roll named \"" ++ name ++ "\""

end Error

end DiceBot
