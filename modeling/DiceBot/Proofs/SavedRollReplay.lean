import DiceBot.Proofs.BotSteps
import DiceBot.Proofs.LineWords

/-!
# Using a saved roll

At every point of a conversation, a saved roll is what its owner last saved under the name.
It was accepted when it was saved, and what is accepted does not depend on anything that
changes, so using it is the same as asking for its arguments to be rolled.
-/
namespace DiceBot

/-- The arguments of a saved roll are words that are accepted as a command. -/
def Change.Rollable (maxRolls : Option Nat) : Change → Prop
  | .saved _ _ args =>
      (∃ command, RollCommand.ofArgsWithin maxRolls args = .ok command) ∧ ∀ w ∈ args, IsWord w
  | .deleted _ _ => True

namespace Bot

variable {ρ ε : Type} [Source ρ ε]

def run (b : Bot ρ) : List (Owner × String) → Bot ρ
  | [] => b
  | (owner, line) :: lines => (b.next owner line).run lines

/-- The changes that lines make, each handled by the bot as it then is. -/
def changes (b : Bot ρ) : List (Owner × String) → List Change
  | [] => []
  | (owner, line) :: lines =>
      (b.change? owner line).toList ++ (b.next owner line).changes lines

theorem run_saved (b : Bot ρ) (lines : List (Owner × String)) :
    (b.run lines).saved = (b.changes lines).foldl SavedRolls.after b.saved := by
  induction lines generalizing b with
  | nil => rfl
  | cons entry lines ih =>
    obtain ⟨owner, line⟩ := entry
    rw [run, changes, ih, List.foldl_append, next_saved]
    cases b.change? owner line <;> rfl

theorem run_maxRolls (b : Bot ρ) (lines : List (Owner × String)) :
    (b.run lines).maxRolls = b.maxRolls := by
  induction lines generalizing b with
  | nil => rfl
  | cons entry lines ih => rw [run, ih, next_maxRolls]

omit [Source ρ ε] in
private theorem change?_rollable {b : Bot ρ} {owner : Owner} {line : String} {change : Change}
    (hchange : b.change? owner line = some change) : change.Rollable b.maxRolls := by
  obtain ⟨request, action, hline, hplan, hrequest⟩ := change?_eq_some.mp hchange
  cases change with
  | deleted => trivial
  | saved owner' name args =>
    rcases request with _ | (_ | ⟨name', args'⟩) | _ | (_ | ⟨_, _ | _⟩) | _ | _ | _ <;>
      cases hrequest
    have hwords := Request.isWord_of_save hline
    exact ⟨(plan_save_eq_ok.mp hplan).1, fun w hw => hwords w (List.mem_cons_of_mem _ hw)⟩

theorem changes_rollable (b : Bot ρ) (lines : List (Owner × String)) :
    ∀ change ∈ b.changes lines, change.Rollable b.maxRolls := by
  induction lines generalizing b with
  | nil => simp [changes]
  | cons entry lines ih =>
    obtain ⟨owner, line⟩ := entry
    intro change hmem
    rcases List.mem_append.mp hmem with hmem | hmem
    · exact change?_rollable (by simpa using hmem)
    · rw [← next_maxRolls b owner line]
      exact ih (b.next owner line) change hmem

/-- What a new bot has saved after some lines is what was last saved in them. -/
theorem run_new_get_eq_ok {source : ρ} {texts : Texts} {maxRolls : Option Nat}
    {lines : List (Owner × String)} {owner : Owner} {name : String} {args : List String} :
    ((new source texts maxRolls).run lines).saved.get owner name = .ok args ↔
      LastSaved owner name args ((new source texts maxRolls).changes lines) := by
  rw [SavedRolls.get_eq_ok, run_saved]
  exact SavedRolls.byName_afterAll

private theorem lastSaved_rollable {b : Bot ρ} {lines : List (Owner × String)} {owner : Owner}
    {name : String} {args : List String}
    (h : LastSaved owner name args (b.changes lines)) :
    (∃ command, RollCommand.ofArgsWithin b.maxRolls args = .ok command) ∧
      ∀ w ∈ args, IsWord w :=
  changes_rollable b lines _ h.mem

private theorem ofLine?_use {name : String} (hname : IsWord name) :
    Request.ofLine? ("use " ++ name) = some (.use [name]) := by
  have huse : IsWord "use" := by decide
  have hargs : ∀ w ∈ [name], IsWord w := by simpa using hname
  have hline := Request.ofLine?_intercalate huse hargs
  rw [String.intercalate_cons_cons, String.intercalate_singleton] at hline
  exact hline

theorem ofLine?_roll {args : List String} (hargs : ∀ w ∈ args, IsWord w) :
    Request.ofLine? (" ".intercalate ("roll" :: args)) = some (.roll args) :=
  Request.ofLine?_intercalate (by decide) hargs

/-- After any lines from any owners on a new bot, a use of a saved roll is answered as the
line that rolls the arguments last saved, which is an accepted command; a use of any other
name is answered with an error and changes nothing. -/
theorem handle_use_run_new (source : ρ) (texts : Texts) (maxRolls : Option Nat)
    (lines : List (Owner × String)) (owner : Owner) {name : String} (hname : IsWord name) :
    let b := (new source texts maxRolls).run lines
    let log := (new source texts maxRolls).changes lines
    (∀ args, LastSaved owner name args log →
      handle owner ("use " ++ name) b = handle owner (" ".intercalate ("roll" :: args)) b ∧
      ∃ command, RollCommand.ofArgsWithin maxRolls args = .ok command ∧
        handle owner ("use " ++ name) b =
          (some <$> withSource command.evaluateAndRender) b) ∧
    ((∀ args, ¬ LastSaved owner name args log) →
      handle owner ("use " ++ name) b = .ok (some (Error.doesNotExist name).message) b) := by
  intro b log
  have hcap : b.maxRolls = maxRolls := run_maxRolls _ lines
  have huse := ofLine?_use hname
  constructor
  · intro args hlast
    obtain ⟨⟨command, hcommand⟩, hwords⟩ := lastSaved_rollable hlast
    have hget : b.saved.get owner name = .ok args := run_new_get_eq_ok.mpr hlast
    have hwithin : RollCommand.ofArgsWithin b.maxRolls args = .ok command := by
      rw [hcap]
      exact hcommand
    have hplan : b.plan owner (.use [name]) = .ok (.roll command) :=
      plan_use_eq_ok.mpr ⟨name, args, command, rfl, hget, hwithin, rfl⟩
    have hroll : b.plan owner (.roll args) = .ok (.roll command) :=
      plan_roll_eq_ok.mpr ⟨command, hwithin, rfl⟩
    have hreply := handle_planned huse hplan
    refine ⟨?_, command, hcommand, hreply⟩
    rw [hreply, handle_planned (ofLine?_roll hwords) hroll]
  · intro hnever
    have hget : b.saved.get owner name = .error (.doesNotExist name) :=
      SavedRolls.get_eq_error fun args hget => hnever args (run_new_get_eq_ok.mp hget)
    have hplan : b.plan owner (.use [name]) = .error (.doesNotExist name) :=
      bind_eq_error.mpr (.inr ⟨name, rfl, bind_eq_error.mpr (.inl hget)⟩)
    rw [handle_refused huse hplan]
    rfl

theorem handle_use_attack :
    let b := (new (⟨[7, 15]⟩ : Script) .builtIn (some 4)).run
      [(⟨1, 9⟩, "save attack 1d20 adv"), (⟨2, 9⟩, "save attack 1d4"), (⟨1, 9⟩, "roll 1d6")]
    IsWord "attack" ∧
      handle ⟨1, 9⟩ "use attack" b = handle ⟨1, 9⟩ "roll 1d20 adv" b := by
  have hword : IsWord "attack" := by decide
  have hlast : LastSaved ⟨1, 9⟩ "attack" ["1d20", "adv"]
      ((new (⟨[7, 15]⟩ : Script) .builtIn (some 4)).changes
        [(⟨1, 9⟩, "save attack 1d20 adv"), (⟨2, 9⟩, "save attack 1d4"), (⟨1, 9⟩, "roll 1d6")]) :=
    ⟨[], [.saved ⟨2, 9⟩ "attack" ["1d4"]], by decide +kernel, by decide⟩
  exact ⟨hword, ((handle_use_run_new _ _ _ _ _ hword).1 _ hlast).1⟩

end Bot

end DiceBot
