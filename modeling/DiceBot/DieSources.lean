/-!
# Sources of face values

A source is a state that values are drawn from, one for each die. A draw that
fails leaves the source in a state too, since values drawn earlier stay drawn.
-/
namespace DiceBot

/-- States `ρ` from which values are drawn for dice with so many sides. A draw may
fail with an `ε`; a source that never runs out has the empty type there. -/
class Source (ρ : Type) (ε : outParam Type) where
  draw (sides : Nat) : EStateM ε ρ Nat

/-- The value that a die shows: whatever is drawn, it is one of the die's faces. -/
def Source.face {ρ ε : Type} [Source ρ ε] (sides : Nat) : EStateM ε ρ Nat :=
  (fun value => max 1 (min value sides)) <$> Source.draw sides

/-- Every die shows its highest face. -/
structure Highest where
  deriving DecidableEq, Repr

instance : Source Highest Empty where
  draw sides := pure sides

/-- The same value is drawn every time. -/
structure Fixed where
  value : Nat
  deriving DecidableEq, Repr

instance : Source Fixed Empty where
  draw _ := do pure (← get).value

structure Script where
  values : List Nat
  deriving DecidableEq, Repr

/-- A value was asked for after the last one. -/
inductive ScriptEnd where
  | finished
  deriving DecidableEq, Repr

def Script.canDraw (s : Script) : Bool := !s.values.isEmpty

instance : Source Script ScriptEnd where
  draw _ := fun
    | ⟨[]⟩ => .error .finished ⟨[]⟩
    | ⟨value :: values⟩ => .ok value ⟨values⟩

end DiceBot
