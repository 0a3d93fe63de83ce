import DiceBot.Proofs.BotSteps
import DiceBot.Proofs.RollTotals
import DiceBot.Proofs.SavedRollOperations

/-!
# What a line of chat does

A line comes to one of three things: a reply that changes nothing, one change of what its
owner has saved under one name, or a command to be rolled. Which of them it is depends on
the bot, but the source is not looked at. So only a command that is really rolled reaches the
source, and then nothing else changes, even if the source fails in the middle.
-/
namespace DiceBot

inductive Effect where
  /-- A reply, or none, and no more. -/
  | reply (text : Option String)
  | change (change : Change)
  | roll (command : RollCommand)

/-- What an action comes to whose saved rolls, if it keeps any, are not looked at. -/
def Action.effect : Action → Effect
  | .say text => .reply text
  | .roll command => .roll command
  | .keep _ text => .reply text

/-- A request changes only what its owner has saved under a name. -/
theorem Request.exists_key_of_change? {request : Request} {owner : Owner} {change : Change}
    (h : request.change? owner = some change) : ∃ name, change.key = (owner, name) := by
  unfold Request.change? at h
  split at h <;> cases h <;> exact ⟨_, rfl⟩

namespace Bot

section
variable {ρ : Type} {b : Bot ρ} {owner : Owner} {line : String}

def effect (b : Bot ρ) (owner : Owner) (line : String) : Effect :=
  match Request.ofLine? line with
  | none => .reply none
  | some request =>
    match b.plan owner request with
    | .error e => .reply (b.errorReply e)
    | .ok action => (request.change? owner).elim action.effect .change

/-- The line asks for the arguments to be rolled: they are its own, or those that its owner
has saved under the name in it. -/
def AsksFor (b : Bot ρ) (owner : Owner) (line : String) (args : List String) : Prop :=
  Request.ofLine? line = some (.roll args) ∨
    ∃ name, Request.ofLine? line = some (.use [name]) ∧ b.saved.get owner name = .ok args

/-- Only a request that makes a change is planned as one. -/
theorem change?_ne_none_of_keep {request : Request} {saved : SavedRolls} {reply : String}
    (hplan : b.plan owner request = .ok (.keep saved reply)) : request.change? owner ≠ none := by
  cases request with
  | roll args =>
    obtain ⟨command, -, haction⟩ := plan_roll_eq_ok.mp hplan
    cases haction
  | save args =>
    cases args with
    | nil => cases hplan
    | cons name args => exact Option.some_ne_none _
  | use args =>
    obtain ⟨-, -, command, -, -, -, haction⟩ := plan_use_eq_ok.mp hplan
    cases haction
  | delete args =>
    obtain ⟨name, rfl, -, -⟩ := plan_delete_eq_ok.mp hplan
    exact Option.some_ne_none _
  | help => cases hplan
  | about => cases hplan
  | unknown command => cases hplan

/-- Only a request to roll is planned as a roll, and only if nothing is wrong with it. -/
theorem plan_eq_roll {request : Request} {command : RollCommand}
    (hplan : b.plan owner request = .ok (.roll command)) :
    ∃ args, (request = .roll args ∨
        ∃ name, request = .use [name] ∧ b.saved.get owner name = .ok args) ∧
      RollCommand.ofArgsWithin b.maxRolls args = .ok command := by
  cases request with
  | roll args =>
    obtain ⟨command', hcommand, haction⟩ := plan_roll_eq_ok.mp hplan
    cases haction
    exact ⟨args, .inl rfl, hcommand⟩
  | save args =>
    cases args with
    | nil => cases hplan
    | cons name args => cases (plan_save_eq_ok.mp hplan).2
  | use args =>
    obtain ⟨name, saved, command', rfl, hget, hcommand, haction⟩ := plan_use_eq_ok.mp hplan
    cases haction
    exact ⟨saved, .inr ⟨name, rfl, hget⟩, hcommand⟩
  | delete args =>
    obtain ⟨name, -, -, haction⟩ := plan_delete_eq_ok.mp hplan
    cases haction
  | help => cases hplan
  | about => cases hplan
  | unknown command' => cases hplan

/-- What is asked for is rolled if nothing is wrong with it. -/
theorem AsksFor.exists_plan {args : List String} (h : b.AsksFor owner line args) :
    ∃ request, Request.ofLine? line = some request ∧
      b.plan owner request = (RollCommand.ofArgsWithin b.maxRolls args).map .roll := by
  rcases h with hline | ⟨name, hline, hget⟩
  · refine ⟨_, hline, ?_⟩
    rw [plan]
    cases RollCommand.ofArgsWithin b.maxRolls args <;> rfl
  · refine ⟨_, hline, ?_⟩
    rw [plan, nameOf, ok_bind, hget, ok_bind]
    cases RollCommand.ofArgsWithin b.maxRolls args <;> rfl

theorem effect_blank (hline : Request.ofLine? line = none) :
    b.effect owner line = .reply none := by
  rw [effect, hline]

theorem effect_refused {request : Request} {e : Error}
    (hline : Request.ofLine? line = some request) (hplan : b.plan owner request = .error e) :
    b.effect owner line = .reply (b.errorReply e) := by
  simp only [effect, hline, hplan]

theorem effect_planned {request : Request} {action : Action}
    (hline : Request.ofLine? line = some request) (hplan : b.plan owner request = .ok action) :
    b.effect owner line = (request.change? owner).elim action.effect .change := by
  simp only [effect, hline, hplan]

/-- A line that comes to more than a reply has a request with nothing wrong. -/
theorem exists_planned {effect : Effect} (h : b.effect owner line = effect)
    (hmore : ∀ text, effect ≠ .reply text) :
    ∃ request action, Request.ofLine? line = some request ∧
      b.plan owner request = .ok action ∧
        (request.change? owner).elim action.effect .change = effect := by
  cases hline : Request.ofLine? line with
  | none =>
    rw [effect_blank hline] at h
    exact absurd h.symm (hmore none)
  | some request =>
    cases hplan : b.plan owner request with
    | error e =>
      rw [effect_refused hline hplan] at h
      exact absurd h.symm (hmore _)
    | ok action =>
      rw [effect_planned hline hplan] at h
      exact ⟨request, action, rfl, hplan, h⟩

/-- A change is one that the line asks for. -/
theorem effect_eq_change {change : Change} (h : b.effect owner line = .change change) :
    ∃ request, Request.ofLine? line = some request ∧ request.change? owner = some change := by
  obtain ⟨request, action, hline, -, heffect⟩ := exists_planned h (by simp)
  cases hchange : request.change? owner with
  | some change' =>
    rw [hchange] at heffect
    cases heffect
    exact ⟨request, hline, hchange⟩
  | none =>
    rw [hchange] at heffect
    cases action <;> cases heffect

/-- A command is rolled only if it was asked for and makes no more rolls than allowed. -/
theorem effect_eq_roll {command : RollCommand} (h : b.effect owner line = .roll command) :
    ∃ args, b.AsksFor owner line args ∧ RollCommand.ofArgs args = .ok command ∧
      ∀ most, b.maxRolls = some most → command.totalRolls ≤ most := by
  obtain ⟨request, action, hline, hplan, heffect⟩ := exists_planned h (by simp)
  have haction : action = .roll command := by
    cases hchange : request.change? owner with
    | some change =>
      rw [hchange] at heffect
      cases heffect
    | none =>
      rw [hchange] at heffect
      cases action <;> cases heffect
      rfl
  rw [haction] at hplan
  obtain ⟨args, hasked, hwithin⟩ := plan_eq_roll hplan
  obtain ⟨hread, hensure⟩ := RollCommand.ofArgsWithin_eq_ok.mp hwithin
  refine ⟨args, ?_, hread, RollCommand.ensureWithin_eq_ok.mp hensure⟩
  rcases hasked with rfl | ⟨name, rfl, hget⟩
  · exact .inl hline
  · exact .inr ⟨name, hline, hget⟩

end

variable {ρ ε : Type} [Source ρ ε] {b : Bot ρ} {owner : Owner} {line : String}

def carryOut : Effect → EStateM ε (Bot ρ) (Option String)
  | .reply text => pure text
  | .change change => do
      modify fun b => { b with saved := b.saved.after change }
      pure change.reply
  | .roll command => some <$> withSource command.evaluateAndRender

/-- All that a line does is what it comes to. -/
theorem handle_eq_carryOut (b : Bot ρ) (owner : Owner) (line : String) :
    handle owner line b = carryOut (b.effect owner line) b := by
  cases hline : Request.ofLine? line with
  | none =>
    rw [handle_blank hline, effect_blank hline]
    rfl
  | some request =>
    cases hplan : b.plan owner request with
    | error e =>
      rw [handle_refused hline hplan, effect_refused hline hplan]
      rfl
    | ok action =>
      rw [handle_planned hline hplan, effect_planned hline hplan]
      cases hchange : request.change? owner with
      | some change =>
        rw [action_of_change hplan hchange]
        rfl
      | none =>
        cases action with
        | say text => rfl
        | roll command => rfl
        | keep saved reply => exact absurd hchange (change?_ne_none_of_keep hplan)

theorem handle_of_reply {text : Option String} (h : b.effect owner line = .reply text) :
    handle owner line b = .ok text b := by
  rw [handle_eq_carryOut, h]
  rfl

theorem handle_of_change {change : Change} (h : b.effect owner line = .change change) :
    handle owner line b =
      .ok (some change.reply) { b with saved := b.saved.after change } := by
  rw [handle_eq_carryOut, h]
  rfl

theorem handle_of_roll {command : RollCommand} (h : b.effect owner line = .roll command) :
    handle owner line b = (some <$> withSource command.evaluateAndRender) b := by
  rw [handle_eq_carryOut, h, carryOut]

/-- Rolling reaches nothing but the source, whether it fails or not. -/
theorem next_of_roll {command : RollCommand} (h : b.effect owner line = .roll command) :
    b.next owner line = { b with source := stateLeft (command.evaluateAndRender b.source) } := by
  rw [next, handle_of_roll h, stateLeft_map, stateLeft_withSource]

/-- What is saved changes only where a line saves or deletes. -/
theorem effect_of_saved_ne (h : (b.next owner line).saved ≠ b.saved) :
    ∃ change, b.effect owner line = .change change := by
  cases heffect : b.effect owner line with
  | reply text =>
    rw [next, handle_of_reply heffect] at h
    exact absurd rfl h
  | change change => exact ⟨change, rfl⟩
  | roll command =>
    rw [next_of_roll heffect] at h
    exact absurd rfl h

/-- The source changes only where a line rolls. -/
theorem effect_of_source_ne (h : (b.next owner line).source ≠ b.source) :
    ∃ command, b.effect owner line = .roll command := by
  cases heffect : b.effect owner line with
  | reply text =>
    rw [next, handle_of_reply heffect] at h
    exact absurd rfl h
  | change change =>
    rw [next, handle_of_change heffect] at h
    exact absurd rfl h
  | roll command => exact ⟨command, rfl⟩

theorem next_texts (b : Bot ρ) (owner : Owner) (line : String) :
    (b.next owner line).texts = b.texts := by
  cases heffect : b.effect owner line with
  | reply text => rw [next, handle_of_reply heffect, stateLeft]
  | change change => rw [next, handle_of_change heffect, stateLeft]
  | roll command => rw [next_of_roll heffect]

/-- Only a line that comes to nothing gets no reply. -/
theorem effect_of_unanswered (h : given (handle owner line b) = .ok none) :
    b.effect owner line = .reply none := by
  cases heffect : b.effect owner line with
  | reply text =>
    rw [handle_of_reply heffect] at h
    cases h
    rfl
  | change change =>
    rw [handle_of_change heffect] at h
    cases h
  | roll command =>
    rw [handle_of_roll heffect, given_map, map_eq_ok] at h
    obtain ⟨text, -, hnone⟩ := h
    cases hnone

/-- Only a line that rolls can fail. -/
theorem effect_of_failed {e : ε} (h : given (handle owner line b) = .error e) :
    ∃ command, b.effect owner line = .roll command := by
  cases heffect : b.effect owner line with
  | reply text =>
    rw [handle_of_reply heffect] at h
    cases h
  | change change =>
    rw [handle_of_change heffect] at h
    cases h
  | roll command => exact ⟨command, rfl⟩

/-- What a line of the owner may change, and when; `result` is what comes of the line. -/
structure Confined (b : Bot ρ) (owner : Owner) (line : String)
    (result : EStateM.Result ε (Bot ρ) (Option String)) : Prop where
  /-- What is saved changes only if the line saves or deletes a roll and is answered that it
  did, and only for the owner and the name that it is about. -/
  saved : (stateLeft result).saved ≠ b.saved → ∃ request change name,
    Request.ofLine? line = some request ∧ request.change? owner = some change ∧
      change.key = (owner, name) ∧ given result = .ok (some change.reply) ∧
        ∀ owner' name', (owner', name') ≠ (owner, name) →
          (stateLeft result).saved.get owner' name' = b.saved.get owner' name'
  /-- The source changes only if the line asks for arguments to be rolled that are a command
  and make no more rolls than allowed. -/
  source : (stateLeft result).source ≠ b.source → ∃ args command,
    b.AsksFor owner line args ∧ RollCommand.ofArgs args = .ok command ∧
      ∀ most, b.maxRolls = some most → command.totalRolls ≤ most
  texts : (stateLeft result).texts = b.texts
  maxRolls : (stateLeft result).maxRolls = b.maxRolls
  /-- A line with an error is answered with how to write a roll or with the message. -/
  refused : ∀ request e, Request.ofLine? line = some request → b.plan owner request = .error e →
    result = .ok (some (if e.isSyntax then b.texts.textOf syntaxKey else e.message)) b
  fixed : ∀ request, Request.ofLine? line = some request →
    request = .help ∨ request = .about ∨ (∃ command, request = .unknown command) →
      ∃ text, result = .ok (some text) b
  unanswered : given result = .ok none → stateLeft result = b
  failed : ∀ e, given result = .error e → (stateLeft result).saved = b.saved

/-- A line changes nothing but what its request is about: at most one saved roll of the owner, the
source only for a command that is rolled, and nothing at all where it is refused. -/
theorem handle_confined (b : Bot ρ) (owner : Owner) (line : String) :
    Confined b owner line (handle owner line b) where
  saved hsaved := by
    obtain ⟨change, heffect⟩ := effect_of_saved_ne hsaved
    obtain ⟨request, hline, hchange⟩ := effect_eq_change heffect
    obtain ⟨name, hkey⟩ := Request.exists_key_of_change? hchange
    rw [handle_of_change heffect]
    refine ⟨request, change, name, hline, hchange, hkey, rfl, fun owner' name' hne => ?_⟩
    exact SavedRolls.get_after_of_ne (hkey ▸ hne.symm)
  source hsource := by
    obtain ⟨command, heffect⟩ := effect_of_source_ne hsource
    obtain ⟨args, hasked, hread, hcap⟩ := effect_eq_roll heffect
    exact ⟨args, command, hasked, hread, hcap⟩
  texts := next_texts b owner line
  maxRolls := next_maxRolls b owner line
  refused request e hline hplan := handle_refused hline hplan
  fixed request hline hfixed := by
    rcases hfixed with rfl | rfl | ⟨command, rfl⟩
    · exact ⟨_, handle_planned hline rfl⟩
    · exact ⟨_, handle_planned hline rfl⟩
    · exact ⟨_, handle_planned hline rfl⟩
  unanswered hnone := by
    rw [handle_of_reply (effect_of_unanswered hnone), stateLeft]
  failed e herror := by
    obtain ⟨command, heffect⟩ := effect_of_failed herror
    change (b.next owner line).saved = b.saved
    rw [next_of_roll heffect]

end Bot

end DiceBot
