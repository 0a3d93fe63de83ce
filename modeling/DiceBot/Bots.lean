import DiceBot.CommandEvaluation
import DiceBot.DisplayTexts
import DiceBot.Requests
import DiceBot.SavedRolls

/-!
# The bot

A request is first turned into an action or refused with an error; this changes
nothing. Performing an action is what draws from the source or changes the saved rolls.
-/
namespace DiceBot

/-- A bot with its source of face values, the saved rolls of all owners, its texts, and
how many rolls one request may make. -/
structure Bot (ρ : Type) where
  source : ρ
  saved : SavedRolls
  texts : Texts
  maxRolls : Option Nat

/-- What a request comes to when nothing is wrong with it. -/
inductive Action where
  | say (text : String)
  | roll (command : RollCommand)
  | keep (saved : SavedRolls) (reply : String)

namespace Bot

def new {ρ : Type} (source : ρ) (texts : Texts) (maxRolls : Option Nat) : Bot ρ :=
  ⟨source, .empty, texts, maxRolls⟩

def nameOf : List String → Except Error String
  | [name] => .ok name
  | args => .error (.ofWhole (" ".intercalate args) .notOneName)

section
variable {ρ : Type}

/-- A request to save is checked as if it were to be rolled at once. -/
def planSave (b : Bot ρ) (owner : Owner) : List String → Except Error Action
  | [] => .error (.ofWhole "" .noName)
  | name :: args => do
      let _ ← RollCommand.ofArgsWithin b.maxRolls args
      let saved ← b.saved.save owner name args
      pure (.keep saved ("Saved roll \"" ++ name ++ "\"."))

def plan (b : Bot ρ) (owner : Owner) : Request → Except Error Action
  | .roll args => do pure (.roll (← RollCommand.ofArgsWithin b.maxRolls args))
  | .save args => b.planSave owner args
  | .use args => do
      let saved ← b.saved.get owner (← nameOf args)
      pure (.roll (← RollCommand.ofArgsWithin b.maxRolls saved))
  | .delete args => do
      let name ← nameOf args
      let saved ← b.saved.delete owner name
      pure (.keep saved ("Deleted roll \"" ++ name ++ "\"."))
  | .help => .ok (.say (b.texts.textOf helpKey))
  | .about => .ok (.say (b.texts.textOf aboutKey))
  | .unknown command => .ok (.say ("Unknown command \"" ++ command ++ "\". Try /help."))

/-- The reply to a request that is refused: for a syntax error, how to write a roll. -/
def errorReply (b : Bot ρ) (e : Error) : String :=
  if e.isSyntax then b.texts.textOf syntaxKey else e.message

end

variable {ρ ε : Type} [Source ρ ε]

def withSource {α : Type} (draws : EStateM ε ρ α) : EStateM ε (Bot ρ) α := fun b =>
  match draws b.source with
  | .ok a source => .ok a { b with source }
  | .error e source => .error e { b with source }

def perform : Action → EStateM ε (Bot ρ) String
  | .say text => pure text
  | .roll command => withSource command.evaluateAndRender
  | .keep saved reply => do
      modify fun b => { b with saved }
      pure reply

def answer (owner : Owner) (request : Request) : EStateM ε (Bot ρ) String := do
  let b ← get
  match b.plan owner request with
  | .ok action => perform action
  | .error e => pure (b.errorReply e)

/-- Answers a line of chat; a blank line gets no reply. -/
def handle (owner : Owner) (line : String) : EStateM ε (Bot ρ) (Option String) :=
  match Request.ofLine? line with
  | none => pure none
  | some request => some <$> answer owner request

end Bot

end DiceBot
