import DiceBot.Proofs.SavedHistory
import Mathlib.Data.Finset.Card

/-!
# Operations on the saved rolls

Owners save, get and delete in any order. Each operation that succeeds makes the one change it
asks for or none, and one that fails leaves everything as it was. So after any operations the
saved rolls are what the history of the successful ones says, and only accepted arguments are
among them.
-/
namespace DiceBot

inductive Operation where
  | save (owner : Owner) (name : String) (args : List String)
  | get (owner : Owner) (name : String)
  | delete (owner : Owner) (name : String)
  deriving DecidableEq, Repr

namespace Operation

def key : Operation → Owner × String
  | .save owner name _ | .get owner name | .delete owner name => (owner, name)

def change? : Operation → Option Change
  | .save owner name args => some (.saved owner name args)
  | .get .. => none
  | .delete owner name => some (.deleted owner name)

private theorem key_of_change? {op : Operation} {change : Change} (h : op.change? = some change) :
    change.key = op.key := by
  cases op <;> cases h <;> rfl

end Operation

def Change.Accepted : Change → Prop
  | .saved _ _ args => ∃ command, RollCommand.ofArgs args = .ok command
  | .deleted .. => True

namespace SavedRolls

/-- The saved rolls after an operation, or why it fails. -/
def attempt (s : SavedRolls) : Operation → Except Error SavedRolls
  | .save owner name args => s.save owner name args
  | .get owner name => (s.get owner name).map fun _ => s
  | .delete owner name => s.delete owner name

def perform (s : SavedRolls) (op : Operation) : SavedRolls :=
  match s.attempt op with
  | .ok s' => s'
  | .error _ => s

def run (s : SavedRolls) : List Operation → SavedRolls
  | [] => s
  | op :: ops => (s.perform op).run ops

/-- The change that an operation really makes. -/
def made? (s : SavedRolls) (op : Operation) : Option Change :=
  match s.attempt op with
  | .ok _ => op.change?
  | .error _ => none

/-- The changes made by operations, each attempted on what those before it have left. -/
def changes (s : SavedRolls) : List Operation → List Change
  | [] => []
  | op :: ops => (s.made? op).toList ++ (s.perform op).changes ops

/-- The saved rolls are those that a history of changes has left. -/
structure Reflects (s : SavedRolls) (log : List Change) : Prop where
  saved : ∀ owner name args, s.get owner name = .ok args ↔ LastSaved owner name args log
  missing : ∀ owner name, (∀ args, ¬ LastSaved owner name args log) →
    s.get owner name = .error (.doesNotExist name)
  accepted : ∀ owner name args, s.get owner name = .ok args →
    ∃ command, RollCommand.ofArgs args = .ok command
  size : ∃ keys : Finset (Owner × String), s.size = keys.card ∧
    ∀ owner name, (owner, name) ∈ keys ↔ ∃ args, s.get owner name = .ok args
  isEmpty : s.isEmpty = true ↔ s.size = 0

/-- How operations on the saved rolls come out. -/
structure Lawful (s : SavedRolls) : Prop where
  save_ok : ∀ owner name args, (∃ s', s.save owner name args = .ok s') ↔
    ∃ command, RollCommand.ofArgs args = .ok command
  save_error : ∀ owner name args e, s.save owner name args = .error e ↔
    RollCommand.ofArgs args = .error e
  delete_ok : ∀ owner name, (∃ s', s.delete owner name = .ok s') ↔
    ∃ args, s.get owner name = .ok args
  delete_error : ∀ owner name e, s.delete owner name = .error e ↔ s.get owner name = .error e
  failed : ∀ op e, s.attempt op = .error e → s.perform op = s
  others : ∀ op owner name, op.key ≠ (owner, name) →
    (s.perform op).get owner name = s.get owner name

theorem attempt_eq_ok {s s' : SavedRolls} {op : Operation} (h : s.attempt op = .ok s') :
    s' = op.change?.elim s s.after ∧ ∀ change, op.change? = some change → change.Accepted := by
  cases op with
  | save owner name args =>
    obtain ⟨hcommand, hs'⟩ := save_eq_ok.mp h
    refine ⟨hs', fun change hchange => ?_⟩
    cases hchange
    exact hcommand
  | get owner name =>
    obtain ⟨args, -, hs'⟩ := map_eq_ok.mp h
    refine ⟨hs'.symm, fun change hchange => ?_⟩
    cases hchange
  | delete owner name =>
    obtain ⟨-, hs'⟩ := delete_eq_ok.mp h
    refine ⟨hs', fun change hchange => ?_⟩
    cases hchange
    trivial

theorem perform_eq (s : SavedRolls) (op : Operation) :
    s.perform op = (s.made? op).elim s s.after := by
  rw [perform, made?]
  cases h : s.attempt op with
  | error e => rfl
  | ok s' => exact (attempt_eq_ok h).1

theorem made?_eq_some {s : SavedRolls} {op : Operation} {change : Change} :
    s.made? op = some change ↔ (∃ s', s.attempt op = .ok s') ∧ op.change? = some change := by
  rw [made?]
  cases s.attempt op <;> simp

theorem accepted_of_made? {s : SavedRolls} {op : Operation} {change : Change}
    (h : s.made? op = some change) : change.Accepted := by
  obtain ⟨⟨s', hs'⟩, hchange⟩ := made?_eq_some.mp h
  exact (attempt_eq_ok hs').2 change hchange

private theorem key_of_made? {s : SavedRolls} {op : Operation} {change : Change}
    (h : s.made? op = some change) : change.key = op.key :=
  Operation.key_of_change? (made?_eq_some.mp h).2

private theorem run_eq_foldl (s : SavedRolls) (ops : List Operation) :
    s.run ops = (s.changes ops).foldl after s := by
  induction ops generalizing s with
  | nil => rfl
  | cons op ops ih =>
    rw [run, changes, ih, List.foldl_append, perform_eq]
    cases s.made? op <;> rfl

theorem changes_accepted (s : SavedRolls) (ops : List Operation) :
    ∀ change ∈ s.changes ops, change.Accepted := by
  induction ops generalizing s with
  | nil => simp [changes]
  | cons op ops ih =>
    intro change hmem
    rcases List.mem_append.mp hmem with hmem | hmem
    · exact accepted_of_made? (by simpa using hmem)
    · exact ih (s.perform op) change hmem

theorem get_after_of_ne {s : SavedRolls} {change : Change} {owner : Owner} {name : String}
    (h : change.key ≠ (owner, name)) : (s.after change).get owner name = s.get owner name := by
  have hchange (args : List String) : change ≠ .saved owner name args := by
    intro heq
    rw [heq] at h
    exact h rfl
  have hlookup : (s.after change).byName[(owner, name)]? = s.byName[(owner, name)]? := by
    apply Option.ext
    intro args
    rw [byName_after]
    simp [h, hchange]
  rw [get, hlookup, get]

theorem mem_byName {s : SavedRolls} {owner : Owner} {name : String} :
    (owner, name) ∈ s.byName ↔ ∃ args, s.get owner name = .ok args := by
  simp only [get_eq_ok, Std.HashMap.mem_iff_isSome_getElem?, Option.isSome_iff_exists]

private theorem exists_keys (s : SavedRolls) :
    ∃ keys : Finset (Owner × String), s.size = keys.card ∧
      ∀ owner name, (owner, name) ∈ keys ↔ ∃ args, s.get owner name = .ok args := by
  refine ⟨s.byName.keys.toFinset, ?_, fun owner name => ?_⟩
  · rw [List.toFinset_card_of_nodup Std.HashMap.nodup_keys, Std.HashMap.length_keys]
    rfl
  · rw [List.mem_toFinset, Std.HashMap.mem_keys, mem_byName]

theorem lawful (s : SavedRolls) : s.Lawful where
  save_ok owner name args := by
    constructor
    · rintro ⟨s', hsave⟩
      exact (save_eq_ok.mp hsave).1
    · intro hcommand
      exact ⟨_, save_eq_ok.mpr ⟨hcommand, rfl⟩⟩
  save_error owner name args e := by
    rw [save, bind_eq_error]
    simp [pure, Except.pure]
  delete_ok owner name := by
    simp only [delete_eq_ok, exists_and_left, exists_eq, and_true, mem_byName]
  delete_error owner name e := by
    by_cases hname : (owner, name) ∈ s.byName
    · obtain ⟨args, hargs⟩ := mem_byName.mp hname
      simp [delete, hname, hargs]
    · have hget := get_eq_error fun args hargs => hname (mem_byName.mpr ⟨args, hargs⟩)
      simp [delete, hname, hget]
  failed op e h := by rw [perform, h]
  others op owner name hkey := by
    rw [perform_eq]
    cases hmade : s.made? op with
    | none => rfl
    | some change => exact get_after_of_ne (key_of_made? hmade ▸ hkey)

/-- After any operations on saved rolls that were empty at first, what is found under a name is
what was last saved there with success, unless it was deleted since. -/
theorem run_reflects_changes (ops : List Operation) :
    (empty.run ops).Reflects (empty.changes ops) ∧ (empty.run ops).Lawful := by
  have hsaved (owner : Owner) (name : String) (args : List String) :
      (empty.run ops).get owner name = .ok args ↔
        LastSaved owner name args (empty.changes ops) := by
    rw [get_eq_ok, run_eq_foldl, byName_afterAll]
  refine ⟨⟨hsaved, ?_, ?_, exists_keys _, ?_⟩, lawful _⟩
  · intro owner name hnever
    exact get_eq_error fun args hget => hnever args ((hsaved owner name args).mp hget)
  · intro owner name args hget
    have hmem := ((hsaved owner name args).mp hget).mem
    exact changes_accepted empty ops _ hmem
  · rw [isEmpty, Std.HashMap.isEmpty_eq_size_eq_zero, beq_iff_eq]
    rfl

end SavedRolls

end DiceBot
