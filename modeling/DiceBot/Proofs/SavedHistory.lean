import DiceBot.Proofs.FallibleSteps
import DiceBot.SavedRolls
import Mathlib.Data.List.Induction

/-!
# The history of saved rolls

What is saved under a name is what the history of changes says: the arguments that were
last saved there, unless the name was deleted since. Names of different owners have
nothing to do with each other.
-/
namespace DiceBot

/-- A change of the saved rolls that was carried out. -/
inductive Change where
  | saved (owner : Owner) (name : String) (args : List String)
  | deleted (owner : Owner) (name : String)
  deriving DecidableEq, Repr

def Change.key : Change → Owner × String
  | .saved owner name _ => (owner, name)
  | .deleted owner name => (owner, name)

/-- In a history, written from the oldest change on, the owner saved the arguments under
the name and no later change is about that name of the owner. -/
def LastSaved (owner : Owner) (name : String) (args : List String) (log : List Change) : Prop :=
  ∃ earlier later, log = earlier ++ .saved owner name args :: later ∧
    ∀ change ∈ later, change.key ≠ (owner, name)

namespace SavedRolls

def after (s : SavedRolls) : Change → SavedRolls
  | .saved owner name args => ⟨s.byName.insert (owner, name) args⟩
  | .deleted owner name => ⟨s.byName.erase (owner, name)⟩

theorem get_eq_ok {s : SavedRolls} {owner : Owner} {name : String} {args : List String} :
    s.get owner name = .ok args ↔ s.byName[(owner, name)]? = some args := by
  rw [get]
  cases s.byName[(owner, name)]? <;> simp

theorem get_eq_error {s : SavedRolls} {owner : Owner} {name : String}
    (h : ∀ args, s.get owner name ≠ .ok args) :
    s.get owner name = .error (.doesNotExist name) := by
  cases hname : s.byName[(owner, name)]? with
  | none => rw [get, hname]
  | some args => exact absurd (get_eq_ok.mpr hname) (h args)

theorem save_eq_ok {s s' : SavedRolls} {owner : Owner} {name : String} {args : List String} :
    s.save owner name args = .ok s' ↔
      (∃ command, RollCommand.ofArgs args = .ok command) ∧
        s' = s.after (.saved owner name args) := by
  rw [save, bind_eq_ok]
  constructor
  · rintro ⟨command, hcommand, hsave⟩
    cases hsave
    exact ⟨⟨command, hcommand⟩, rfl⟩
  · rintro ⟨⟨command, hcommand⟩, rfl⟩
    exact ⟨command, hcommand, rfl⟩

theorem delete_eq_ok {s s' : SavedRolls} {owner : Owner} {name : String} :
    s.delete owner name = .ok s' ↔
      (owner, name) ∈ s.byName ∧ s' = s.after (.deleted owner name) := by
  rw [delete]
  by_cases hname : (owner, name) ∈ s.byName
  · simp [hname, after, eq_comm]
  · simp [hname]

end SavedRolls

theorem LastSaved.mem {owner : Owner} {name : String} {args : List String} {log : List Change}
    (h : LastSaved owner name args log) : Change.saved owner name args ∈ log := by
  obtain ⟨earlier, later, hlog, -⟩ := h
  simp [hlog]

private theorem not_lastSaved_nil {owner : Owner} {name : String} {args : List String} :
    ¬ LastSaved owner name args [] := by
  intro h
  exact List.not_mem_nil h.mem

private theorem lastSaved_concat {owner : Owner} {name : String} {args : List String}
    {log : List Change} {change : Change} :
    LastSaved owner name args (log ++ [change]) ↔
      change = .saved owner name args ∨
        change.key ≠ (owner, name) ∧ LastSaved owner name args log := by
  constructor
  · rintro ⟨earlier, later, hlog, hlater⟩
    rcases List.eq_nil_or_concat later with rfl | ⟨later, last, rfl⟩
    · have hchange := (List.append_inj' hlog rfl).2
      exact .inl (by simpa using hchange)
    · rw [List.concat_eq_append, ← List.cons_append, ← List.append_assoc] at hlog
      obtain ⟨rfl, hlast⟩ := List.append_inj' hlog rfl
      obtain rfl : change = last := by simpa using hlast
      refine .inr ⟨hlater _ (by simp), earlier, later, rfl, ?_⟩
      intro other hother
      exact hlater other (by simp [hother])
  · rintro (rfl | ⟨hkey, earlier, later, rfl, hlater⟩)
    · exact ⟨log, [], rfl, by simp⟩
    · refine ⟨earlier, later ++ [change], by simp, ?_⟩
      intro other hother
      rcases List.mem_append.mp hother with hother | hother
      · exact hlater other hother
      · rw [List.mem_singleton.mp hother]
        exact hkey

namespace SavedRolls

theorem byName_after {s : SavedRolls} {change : Change} {owner : Owner} {name : String}
    {args : List String} :
    (s.after change).byName[(owner, name)]? = some args ↔
      change = .saved owner name args ∨
        change.key ≠ (owner, name) ∧ s.byName[(owner, name)]? = some args := by
  cases change with
  | saved owner' name' args' =>
    rw [after, Std.HashMap.getElem?_insert]
    by_cases hkey : (owner', name') = (owner, name)
    · obtain ⟨rfl, rfl⟩ := Prod.mk.inj hkey
      simp [Change.key]
    · have hchange : Change.saved owner' name' args' ≠ .saved owner name args := by
        rintro ⟨⟩
        exact hkey rfl
      simp [Change.key, hkey, hchange]
  | deleted owner' name' =>
    rw [after, Std.HashMap.getElem?_erase]
    by_cases hkey : (owner', name') = (owner, name)
    · simp [Change.key, hkey]
    · simp [Change.key, hkey]

/-- What is saved under a name is what was last saved there. -/
theorem byName_afterAll {log : List Change} {owner : Owner} {name : String}
    {args : List String} :
    (log.foldl after empty).byName[(owner, name)]? = some args ↔
      LastSaved owner name args log := by
  induction log using List.reverseRecOn with
  | nil => simp [empty, not_lastSaved_nil]
  | append_singleton log change ih =>
    rw [List.foldl_append, List.foldl_cons, List.foldl_nil, byName_after, lastSaved_concat, ih]

end SavedRolls

end DiceBot
