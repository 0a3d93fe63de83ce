import DiceBot.Bots
import DiceBot.Proofs.SavedHistory

/-!
# One line of chat

A request that is refused gets an error reply and changes nothing. Of the requests that
are not refused, only those to save or to delete change the saved rolls, and each makes
the one change it asks for; the others leave them as they are, even if the source fails.
-/
namespace DiceBot

/-- The state in which a computation stops, whether it has a value or fails. -/
def stateLeft {ε σ α : Type} : EStateM.Result ε σ α → σ
  | .ok _ s => s
  | .error _ s => s

theorem stateLeft_map {ε σ α β : Type} (f : α → β) (x : EStateM ε σ α) (s : σ) :
    stateLeft ((f <$> x) s) = stateLeft (x s) := by
  change stateLeft (EStateM.map f x s) = _
  rw [EStateM.map]
  cases x s <;> rfl

/-- What a computation gives, a value or a failure, whatever state it leaves. -/
def given {ε σ α : Type} : EStateM.Result ε σ α → Except ε α
  | .ok a _ => .ok a
  | .error e _ => .error e

theorem given_map {ε σ α β : Type} (f : α → β) (x : EStateM ε σ α) (s : σ) :
    given ((f <$> x) s) = (given (x s)).map f := by
  change given (EStateM.map f x s) = _
  rw [EStateM.map]
  cases x s <;> rfl

theorem RollCommand.ofArgsWithin_eq_ok {maxRolls : Option Nat} {args : List String}
    {command : RollCommand} :
    ofArgsWithin maxRolls args = .ok command ↔
      ofArgs args = .ok command ∧ command.ensureWithin maxRolls = .ok () := by
  rw [ofArgsWithin, bind_eq_ok]
  constructor
  · rintro ⟨read, hread, hwithin⟩
    obtain ⟨⟨⟩, hensure, hpure⟩ := bind_eq_ok.mp hwithin
    cases hpure
    exact ⟨hread, hensure⟩
  · rintro ⟨hread, hensure⟩
    exact ⟨command, hread, bind_eq_ok.mpr ⟨(), hensure, rfl⟩⟩

def Request.change? (owner : Owner) : Request → Option Change
  | .save (name :: args) => some (.saved owner name args)
  | .delete [name] => some (.deleted owner name)
  | _ => none

def Change.reply : Change → String
  | .saved _ name _ => "Saved roll \"" ++ name ++ "\"."
  | .deleted _ name => "Deleted roll \"" ++ name ++ "\"."

namespace Bot

theorem nameOf_eq_ok {args : List String} {name : String} :
    nameOf args = .ok name ↔ args = [name] := by
  rcases args with _ | ⟨first, _ | ⟨second, rest⟩⟩ <;> simp [nameOf]

section
variable {ρ : Type} {b : Bot ρ} {owner : Owner} {action : Action}

theorem plan_roll_eq_ok {args : List String} :
    b.plan owner (.roll args) = .ok action ↔
      ∃ command, RollCommand.ofArgsWithin b.maxRolls args = .ok command ∧
        action = .roll command := by
  rw [plan, bind_eq_ok]
  simp [pure, Except.pure, eq_comm]

theorem plan_save_eq_ok {name : String} {args : List String} :
    b.plan owner (.save (name :: args)) = .ok action ↔
      (∃ command, RollCommand.ofArgsWithin b.maxRolls args = .ok command) ∧
        action = .keep (b.saved.after (.saved owner name args))
          (Change.saved owner name args).reply := by
  rw [plan, planSave, bind_eq_ok]
  constructor
  · rintro ⟨command, hcommand, hrest⟩
    obtain ⟨saved, hsave, hpure⟩ := bind_eq_ok.mp hrest
    obtain ⟨-, rfl⟩ := SavedRolls.save_eq_ok.mp hsave
    cases hpure
    exact ⟨⟨command, hcommand⟩, rfl⟩
  · rintro ⟨⟨command, hcommand⟩, rfl⟩
    have hread := (RollCommand.ofArgsWithin_eq_ok.mp hcommand).1
    have hsave : b.saved.save owner name args =
        .ok (b.saved.after (.saved owner name args)) :=
      SavedRolls.save_eq_ok.mpr ⟨⟨command, hread⟩, rfl⟩
    exact ⟨command, hcommand, bind_eq_ok.mpr ⟨_, hsave, rfl⟩⟩

theorem plan_use_eq_ok {args : List String} :
    b.plan owner (.use args) = .ok action ↔
      ∃ name saved command, args = [name] ∧ b.saved.get owner name = .ok saved ∧
        RollCommand.ofArgsWithin b.maxRolls saved = .ok command ∧ action = .roll command := by
  rw [plan, bind_eq_ok]
  simp only [nameOf_eq_ok, bind_eq_ok]
  constructor
  · rintro ⟨name, hname, saved, hget, command, hcommand, hpure⟩
    cases hpure
    exact ⟨name, saved, command, hname, hget, hcommand, rfl⟩
  · rintro ⟨name, saved, command, hname, hget, hcommand, rfl⟩
    exact ⟨name, hname, saved, hget, command, hcommand, rfl⟩

theorem plan_delete_eq_ok {args : List String} :
    b.plan owner (.delete args) = .ok action ↔
      ∃ name, args = [name] ∧ (owner, name) ∈ b.saved.byName ∧
        action = .keep (b.saved.after (.deleted owner name))
          (Change.deleted owner name).reply := by
  rw [plan, bind_eq_ok]
  simp only [nameOf_eq_ok, bind_eq_ok, SavedRolls.delete_eq_ok]
  constructor
  · rintro ⟨name, hname, saved, ⟨hmem, rfl⟩, hpure⟩
    cases hpure
    exact ⟨name, hname, hmem, rfl⟩
  · rintro ⟨name, hname, hmem, rfl⟩
    exact ⟨name, hname, _, ⟨hmem, rfl⟩, rfl⟩

theorem action_of_change {request : Request} {change : Change}
    (hplan : b.plan owner request = .ok action) (hchange : request.change? owner = some change) :
    action = .keep (b.saved.after change) change.reply := by
  rcases request with args | (_ | ⟨name, args⟩) | args | args | _ | _ | command <;>
    try cases hchange
  · exact (plan_save_eq_ok.mp hplan).2
  · obtain ⟨name, rfl, -, haction⟩ := plan_delete_eq_ok.mp hplan
    cases hchange
    exact haction

theorem stateLeft_withSource {ε α : Type} (draws : EStateM ε ρ α) :
    stateLeft (withSource draws b) = { b with source := stateLeft (draws b.source) } := by
  rw [withSource]
  cases draws b.source <;> rfl

end

variable {ρ ε : Type} [Source ρ ε] {b : Bot ρ} {owner : Owner} {line : String}

theorem handle_blank (hline : Request.ofLine? line = none) :
    handle owner line b = .ok none b := by
  rw [handle, hline]
  rfl

theorem handle_planned {request : Request} {action : Action}
    (hline : Request.ofLine? line = some request) (hplan : b.plan owner request = .ok action) :
    handle owner line b = (some <$> perform action) b := by
  have hanswer : answer owner request b = perform action b := by
    rw [answer, get_bind_apply, hplan]
  rw [handle, hline]
  change EStateM.map some (answer owner request) b = EStateM.map some (perform action) b
  rw [EStateM.map, EStateM.map, hanswer]

theorem handle_refused {request : Request} {e : Error}
    (hline : Request.ofLine? line = some request) (hplan : b.plan owner request = .error e) :
    handle owner line b = .ok (some (b.errorReply e)) b := by
  have hanswer : answer owner request b = .ok (b.errorReply e) b := by
    rw [answer, get_bind_apply, hplan]
    rfl
  rw [handle, hline]
  change EStateM.map some (answer owner request) b = _
  rw [EStateM.map, hanswer]

private theorem perform_saved {request : Request} {action : Action}
    (hplan : b.plan owner request = .ok action) (hchange : request.change? owner = none) :
    (stateLeft (perform action b)).saved = b.saved := by
  cases request with
  | roll args =>
    obtain ⟨command, -, rfl⟩ := plan_roll_eq_ok.mp hplan
    rw [perform, stateLeft_withSource]
  | save args =>
    rcases args with _ | ⟨name, args⟩
    · cases hplan
    · cases hchange
  | use args =>
    obtain ⟨-, -, command, -, -, -, rfl⟩ := plan_use_eq_ok.mp hplan
    rw [perform, stateLeft_withSource]
  | delete args =>
    obtain ⟨name, rfl, -, -⟩ := plan_delete_eq_ok.mp hplan
    cases hchange
  | help =>
    cases hplan
    rfl
  | about =>
    cases hplan
    rfl
  | unknown command =>
    cases hplan
    rfl

private theorem perform_maxRolls (action : Action) :
    (stateLeft (perform action b)).maxRolls = b.maxRolls := by
  cases action with
  | say text => rfl
  | roll command => rw [perform, stateLeft_withSource]
  | keep saved reply => rfl

/-- The change that a line of the owner makes, if its request is not refused. -/
def change? (b : Bot ρ) (owner : Owner) (line : String) : Option Change :=
  match Request.ofLine? line with
  | none => none
  | some request =>
    match b.plan owner request with
    | .ok _ => request.change? owner
    | .error _ => none

/-- The bot after a line. It goes on if the source fails. -/
def next (b : Bot ρ) (owner : Owner) (line : String) : Bot ρ :=
  stateLeft (handle owner line b)

omit [Source ρ ε] in
theorem change?_eq_some {change : Change} :
    b.change? owner line = some change ↔
      ∃ request action, Request.ofLine? line = some request ∧
        b.plan owner request = .ok action ∧ request.change? owner = some change := by
  rw [Bot.change?]
  cases hline : Request.ofLine? line with
  | none => simp
  | some request =>
    cases hplan : b.plan owner request with
    | error e => simp [hplan]
    | ok action => simp [hplan]

/-- A line that makes a change says so in its reply. -/
theorem handle_change {change : Change} (hchange : b.change? owner line = some change) :
    handle owner line b =
      .ok (some change.reply) { b with saved := b.saved.after change } := by
  obtain ⟨request, action, hline, hplan, hrequest⟩ := change?_eq_some.mp hchange
  have haction := action_of_change hplan hrequest
  rw [handle_planned hline hplan, haction]
  rfl

theorem next_saved (b : Bot ρ) (owner : Owner) (line : String) :
    (b.next owner line).saved = (b.change? owner line).elim b.saved b.saved.after := by
  cases hchange : b.change? owner line with
  | some change =>
    rw [next, handle_change hchange]
    rfl
  | none =>
    cases hline : Request.ofLine? line with
    | none =>
      rw [next, handle_blank hline]
      rfl
    | some request =>
      cases hplan : b.plan owner request with
      | error e =>
        rw [next, handle_refused hline hplan]
        rfl
      | ok action =>
        have hrequest : request.change? owner = none := by
          simpa [Bot.change?, hline, hplan] using hchange
        rw [next, handle_planned hline hplan, stateLeft_map]
        exact perform_saved hplan hrequest

theorem next_maxRolls (b : Bot ρ) (owner : Owner) (line : String) :
    (b.next owner line).maxRolls = b.maxRolls := by
  cases hline : Request.ofLine? line with
  | none =>
    rw [next, handle_blank hline]
    rfl
  | some request =>
    cases hplan : b.plan owner request with
    | error e =>
      rw [next, handle_refused hline hplan]
      rfl
    | ok action =>
      rw [next, handle_planned hline hplan, stateLeft_map]
      exact perform_maxRolls action

end Bot

end DiceBot
