import DiceBot.RollCommands
import DiceBot.RollReading

/-!
# Roll commands from arguments

An argument that starts with a digit is a roll. The arguments up to the next roll
are its options: a mode, given by any start of its name, and `x` with a number of
repeats. The leftmost argument that cannot be taken is the one reported.
-/
namespace DiceBot

/-- The mode that a word selects: any start of the mode's name but the empty one. -/
def Mode.ofWord? (word : String) : Option Mode :=
  if word = "" then none
  else if word.toList.isPrefixOf "advantage".toList then some .advantage
  else if word.toList.isPrefixOf "disadvantage".toList then some .disadvantage
  else none

/-- The digits of an argument such as `x12`. -/
def repeatDigits? (arg : String) : Option String :=
  match arg.toList with
  | 'x' :: digits =>
      if digits ≠ [] ∧ digits.all Char.isDigit then some (String.ofList digits) else none
  | _ => none

def startsRoll (arg : String) : Bool := arg.toList.head?.any Char.isDigit

namespace Entry

def once (roll : Roll) : Entry := ⟨roll, 1, by decide⟩

/-- The entry with one more option. Repeats may be given again, and so may the same
mode, but not the other one. -/
def withOption (e : Entry) (arg : String) : Except Error Entry :=
  match Mode.ofWord? arg with
  | some mode =>
      if e.roll.mode = .normal ∨ e.roll.mode = mode then
        .ok { e with roll := e.roll.withMode mode }
      else .error (.ofWhole arg .bothModes)
  | none =>
      match repeatDigits? arg with
      | some digits => do
          let ⟨repeats, h⟩ ← Limit.repeats.read .uint32 digits
          pure { e with repeats := repeats.toNat, repeats_admitted := h.toNat (by decide) }
      | none => .error (.ofWhole arg .unknownArgument)

end Entry

namespace RollCommand

/-- The command whose first entry is begun and goes on with the arguments. -/
def continueWith (e : Entry) : List String → Except Error RollCommand
  | [] => .ok ⟨e, []⟩
  | arg :: args =>
      if startsRoll arg then do
        let roll ← Roll.ofText arg .normal
        let later ← continueWith (.once roll) args
        pure ⟨e, later.entries⟩
      else do
        let e ← e.withOption arg
        continueWith e args

def ofArgs : List String → Except Error RollCommand
  | [] => .error (.ofWhole "" .noRolls)
  | arg :: args =>
      if startsRoll arg then do
        let roll ← Roll.ofText arg .normal
        continueWith (.once roll) args
      else .error (.ofWhole arg .optionBeforeRoll)

def ofArgsWithin (maxRolls : Option Nat) (args : List String) : Except Error RollCommand := do
  let command ← ofArgs args
  command.ensureWithin maxRolls
  pure command

end RollCommand

end DiceBot
