import DiceBot.Numerals

/-!
# Options of the program

Options stand before the arguments, which begin at the first one that is no option or
behind `--`. An option that is not given can be set by an environment variable.
-/
namespace DiceBot

structure ProgramOptions where
  seed : Option UInt64
  maxRolls : Option Nat
  textsPath : Option String
  args : List String
  deriving DecidableEq, Repr

inductive OptionName where
  | seed | maxRolls | texts
  deriving DecidableEq, Repr

namespace OptionName

def all : List OptionName := [.seed, .maxRolls, .texts]

def flag : OptionName → String
  | .seed => "--seed"
  | .maxRolls => "--max-rolls"
  | .texts => "--texts"

def variableName : OptionName → String
  | .seed => "ROLLBOT_SEED"
  | .maxRolls => "ROLLBOT_MAX_ROLLS"
  | .texts => "ROLLBOT_TEXTS"

def ofFlag? (flag : String) : Option OptionName := all.find? (·.flag = flag)

end OptionName

def numberBelow? (bound : Nat) (text : String) : Option Nat :=
  (digitsValue? text.toList).filter (· < bound)

namespace ProgramOptions

def empty : ProgramOptions := ⟨none, none, none, []⟩

def gives (o : ProgramOptions) : OptionName → Bool
  | .seed => o.seed.isSome
  | .maxRolls => o.maxRolls.isSome
  | .texts => o.textsPath.isSome

/-- The options with one more, unless it is given already or its value is unfit. -/
def set? (o : ProgramOptions) (name : OptionName) (value : String) : Option ProgramOptions :=
  if o.gives name then none
  else match name with
    | .seed => (numberBelow? UInt64.size value).map fun n => { o with seed := some n.toUInt64 }
    | .maxRolls => (numberBelow? UInt32.size value).map fun n => { o with maxRolls := some n }
    | .texts => some { o with textsPath := some value }

/-- Reads what the program is started with. A value follows its option as the next
argument or behind an equals sign. -/
def read? (o : ProgramOptions) : List String → Option ProgramOptions
  | [] => some o
  | "--" :: args => some { o with args }
  | arg :: rest =>
      let (flag, value) := arg.toList.span (· ≠ '=')
      match OptionName.ofFlag? (String.ofList flag), value, rest with
      | some name, _ :: value, rest => do read? (← o.set? name (String.ofList value)) rest
      | some name, [], value :: rest => do read? (← o.set? name value) rest
      | some _, [], [] => none
      | none, _, rest =>
          if "-".toList.isPrefixOf arg.toList then none else some { o with args := arg :: rest }

end ProgramOptions

end DiceBot
