import DiceBot.Bots
import DiceBot.SeededSource
import DiceBot.TextLines

/-!
# The command line

With arguments, one command is rolled and the program ends. Without, each line of
the input is a request, and each reply is followed by an empty line.
-/
namespace DiceBot

/-- What the program starts from: a source, how many rolls one command may make, the
texts or why they could not be read, the arguments and the whole input. -/
structure CommandLine (ρ : Type) where
  source : ρ
  maxRolls : Option Nat
  textsPath : String
  texts : Except FileFault Texts
  args : List String
  input : String

structure Ending where
  exitCode : UInt32
  output : String
  errors : String
  deriving DecidableEq, Repr

/-- Whoever runs the program is the owner of the rolls saved meanwhile. -/
def localOwner : Owner := ⟨0, 0⟩

def textsFailure (path : String) (fault : FileFault) : String :=
  "Error: Failed to load texts from " ++ path ++ "\n\nCaused by:\n    " ++ fault.message ++ "\n"

variable {ρ ε : Type} [Source ρ ε]

def rollOnce (texts : Texts) (maxRolls : Option Nat) (args : List String) :
    EStateM ε ρ Ending :=
  match RollCommand.ofArgsWithin maxRolls args with
  | .ok command => do pure ⟨0, (← command.evaluateAndRender) ++ "\n", ""⟩
  | .error e =>
      pure ⟨1, "", (if e.isSyntax then (texts.get? syntaxKey).getD "" else e.message) ++ "\n"⟩

def answerLine (line : String) : EStateM ε (Bot ρ) String := do
  match ← Bot.handle localOwner line with
  | some reply => pure (reply ++ "\n\n")
  | none => pure ""

def CommandLine.run (c : CommandLine ρ) : EStateM ε ρ Ending :=
  match c.texts with
  | .error fault => pure ⟨1, "", textsFailure c.textsPath fault⟩
  | .ok texts =>
      if c.args ≠ [] then rollOnce texts c.maxRolls c.args
      else fun source =>
        match (textLines c.input).mapM answerLine (Bot.new source texts c.maxRolls) with
        | .ok replies b => .ok ⟨0, String.join replies, ""⟩ b.source
        | .error e b => .error e b.source

end DiceBot
