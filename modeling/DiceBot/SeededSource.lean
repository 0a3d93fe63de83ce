import DiceBot.DieSources

/-!
# A seeded source

The state is one 64-bit word. Each step adds an odd number to it and mixes the
result into a word of output, whose lower half is scaled to the faces of the die;
the few words that would favour some faces are drawn again. Adding an odd number
leads through all states, and the output of one of them is accepted for every
number of sides, so every draw ends.
-/
namespace DiceBot

/-- A generator of words; its first state is the seed. -/
structure Seeded where
  state : UInt64
  deriving DecidableEq, Repr

namespace Seeded

def increment : UInt64 := 0x2d358dccaa6c78a5

/-- The output of a state: the upper and the lower half, combined bit by bit, of
the product of the state with a masked copy of itself. -/
def output (state : UInt64) : UInt64 :=
  let product := state.toNat * (state ^^^ 0x8bb84b93962eacc9).toNat
  product.toUInt64 ^^^ (product / UInt64.size).toUInt64

/-- The face that a word is scaled to, which is the upper half of its product with the
number of sides. A word whose lower half is too small is refused, so that as many words
are left for one face as for another. -/
def face? (sides : Nat) (word : UInt32) : Option Nat :=
  let product := word.toNat * sides
  if product % UInt32.size < (UInt32.size - sides) % sides then none
  else some (product / UInt32.size + 1)

/-- The state from which the next word is 1. -/
def oneAhead : UInt64 := 0x635f92b9

/-- Times the increment, this is 1 modulo the number of states. -/
def inverse : UInt64 := 0x32e25c49d2beaf2d

theorem increment_mul_inverse : increment * inverse = 1 := by decide

/-- How many steps away the state `oneAhead` is. -/
def distance (state : UInt64) : Nat := ((oneAhead - state) * inverse).toNat

private theorem distance_increment_add {state : UInt64} (h : state ≠ oneAhead) :
    distance (increment + state) < distance state := by
  have hi := increment_mul_inverse
  have hstep : (oneAhead - (increment + state)) * inverse = (oneAhead - state) * inverse - 1 := by
    grind
  have hne : (oneAhead - state) * inverse ≠ 0 := by
    intro h0
    have : (oneAhead - state) * inverse * increment = 0 := by rw [h0, UInt64.zero_mul]
    exact h (by grind)
  have hpos : 0 < ((oneAhead - state) * inverse).toNat :=
    Nat.pos_of_ne_zero fun h0 => hne (UInt64.toNat_inj.mp h0)
  have hle : (1 : UInt64) ≤ (oneAhead - state) * inverse := UInt64.le_iff_toNat_le.mpr hpos
  unfold distance
  rw [hstep, UInt64.toNat_sub_of_le _ _ hle]
  exact Nat.sub_lt hpos Nat.one_pos

private theorem output_oneAhead : (output (increment + oneAhead)).toUInt32 = 1 := by decide

private theorem face?_one_ne_none {sides : Nat} (h : 0 < sides) : face? sides 1 ≠ none := by
  have ht : (UInt32.size - sides) % sides < sides := Nat.mod_lt _ h
  have hone : (1 : UInt32).toNat = 1 := rfl
  simp only [face?, hone, Nat.one_mul]
  split
  · rename_i hlt
    rcases Nat.lt_or_ge sides UInt32.size with hs | hs
    · rw [Nat.mod_eq_of_lt hs] at hlt
      omega
    · rw [Nat.sub_eq_zero_of_le hs, Nat.zero_mod] at hlt
      omega
  · simp

/-- A word that is refused is not the next one of `oneAhead`, so the state gets closer to it. -/
theorem distance_lt_of_refused {sides : Nat} {state : UInt64}
    (h : face? (max sides 1) (output (increment + state)).toUInt32 = none) :
    distance (increment + state) < distance state := by
  refine distance_increment_add fun hs => ?_
  rw [hs, output_oneAhead] at h
  exact face?_one_ne_none (Nat.le_max_right sides 1) h

/-- Draws words until one is accepted, and scales it to a face. -/
def drawFace (sides : Nat) (state : UInt64) : Nat × UInt64 :=
  match _refused : face? (max sides 1) (output (increment + state)).toUInt32 with
  | some face => (face, increment + state)
  | none => drawFace sides (increment + state)
termination_by distance state
decreasing_by exact distance_lt_of_refused _refused

end Seeded

instance : Source Seeded Empty where
  draw sides := fun s =>
    let (face, state) := Seeded.drawFace sides s.state
    .ok face ⟨state⟩

end DiceBot
