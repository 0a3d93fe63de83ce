import DiceBot.CommandReading
import Std.Data.HashMap

/-!
# Saved rolls

Every owner, which is a user in a chat, has rolls saved under names. Only arguments
that stand for a command are saved, so whatever is found under a name can be rolled.
-/
namespace DiceBot

/-- A user within one chat. -/
structure Owner where
  user : Int
  chat : Int
  deriving DecidableEq, Hashable, Repr

/-- The arguments saved by each owner under each name. -/
structure SavedRolls where
  byName : Std.HashMap (Owner × String) (List String)

namespace SavedRolls

def empty : SavedRolls := ⟨∅⟩

def size (s : SavedRolls) : Nat := s.byName.size

def isEmpty (s : SavedRolls) : Bool := s.byName.isEmpty

def get (s : SavedRolls) (owner : Owner) (name : String) : Except Error (List String) :=
  match s.byName[(owner, name)]? with
  | some args => .ok args
  | none => .error (.doesNotExist name)

/-- Saves arguments under the name in place of any that were there. -/
def save (s : SavedRolls) (owner : Owner) (name : String) (args : List String) :
    Except Error SavedRolls := do
  let _ ← RollCommand.ofArgs args
  pure ⟨s.byName.insert (owner, name) args⟩

def delete (s : SavedRolls) (owner : Owner) (name : String) : Except Error SavedRolls :=
  if (owner, name) ∈ s.byName then .ok ⟨s.byName.erase (owner, name)⟩
  else .error (.doesNotExist name)

end SavedRolls

end DiceBot
