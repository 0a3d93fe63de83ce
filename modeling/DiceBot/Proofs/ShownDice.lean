import DiceBot.Proofs.KeptDice

/-!
# What dice show, whatever is drawn

However the values are drawn, every term of dice shows as many faces as it has dice, and each is
a face of its die. So the outcomes of a roll can be described without its source.
-/
namespace DiceBot

variable {ρ ε : Type} [Source ρ ε]

/-- There is one value for each of the dice, and it is one of the die's faces. -/
structure DieOutcome.IsRolled (o : DieOutcome) : Prop where
  count : o.values.length = o.die.count
  faces : ∀ value ∈ o.values, 1 ≤ value ∧ value ≤ o.die.sides

namespace Roll

structure Shows (r : Roll) (outcomes : List DieOutcome) : Prop where
  dice : outcomes.map DieOutcome.die = r.dice
  rolled : ∀ o ∈ outcomes, o.IsRolled

/-- The outcome shows the dice of the roll, and its losing total is the one of dice that the roll
shows, too. -/
structure HasOutcome (r : Roll) (o : RollOutcome) : Prop where
  shows : r.Shows o.dice
  modifiers : o.modifiers = r.modifiers
  mode : o.mode = r.mode
  once : r.mode = .normal → o.losingTotal = none
  twice : r.mode ≠ .normal →
    ∃ other, r.Shows other ∧ o.losingTotal = some (signedSum other + r.modifiers.sum)

end Roll

private theorem Drawn.mem_faces {sides : Nat} {s s' : ρ} {faces : List Nat}
    (h : Drawn sides s faces s') (hsides : 1 ≤ sides) :
    ∀ value ∈ faces, 1 ≤ value ∧ value ≤ sides := by
  induction h with
  | nil s => simp
  | cons hdraw hrest ih =>
    rw [List.forall_mem_cons]
    exact ⟨by omega, ih⟩

theorem Die.one_le_sides (d : Die) : 1 ≤ d.sides := by
  have hsides := d.sides_bounds.1
  omega

private theorem Rolled.map_die {s s' : ρ} {ds : List Die} {outcomes : List DieOutcome}
    (h : Rolled s ds outcomes s') : outcomes.map DieOutcome.die = ds := by
  induction h with
  | nil s => rfl
  | cons hlength hdrawn hrest ih => rw [List.map_cons, ih]

theorem Rolled.isRolled {s s' : ρ} {ds : List Die} {outcomes : List DieOutcome}
    (h : Rolled s ds outcomes s') : ∀ o ∈ outcomes, o.IsRolled := by
  induction h with
  | nil s => simp
  | @cons s s₁ s₂ d ds faces outcomes hlength hdrawn hrest ih =>
    rw [List.forall_mem_cons]
    exact ⟨⟨hlength, hdrawn.mem_faces d.one_le_sides⟩, ih⟩

namespace Roll

theorem shows_of_rolled {r : Roll} {s s' : ρ} {outcomes : List DieOutcome}
    (h : Rolled s r.dice outcomes s') : r.Shows outcomes :=
  ⟨h.map_die, h.isRolled⟩

private theorem choose_hasOutcome {r : Roll} (hmode : r.mode ≠ .normal)
    {first second : List DieOutcome}
    (hfirst : r.Shows first) (hsecond : r.Shows second) : r.HasOutcome (r.choose first second) := by
  have hkeep {kept other : List DieOutcome} (hkept : r.Shows kept) (hother : r.Shows other) :
      r.HasOutcome (r.keep kept other) := by
    refine ⟨hkept, rfl, rfl, fun hnormal => absurd hnormal hmode, fun _ => ⟨other, hother, ?_⟩⟩
    rw [keep, diceTotal_eq_signedSum, modifierTotal_eq]
  rw [choose]
  split
  · exact hkeep hsecond hfirst
  · exact hkeep hfirst hsecond

theorem hasOutcome_of_evaluate {r : Roll} {s s' : ρ} {o : RollOutcome}
    (h : r.evaluate s = .ok o s') : r.HasOutcome o := by
  obtain ⟨first, s₁, hfirst, ⟨hmode, rfl, rfl⟩ | ⟨hmode, second, hsecond, rfl⟩⟩ :=
    evaluate_eq_ok.mp h
  · exact ⟨shows_of_rolled hfirst, rfl, rfl, fun _ => rfl, fun hnormal => absurd hmode hnormal⟩
  · exact choose_hasOutcome hmode (shows_of_rolled hfirst) (shows_of_rolled hsecond)

/-- Only the total of other dice of the roll is recorded as its losing total. -/
theorem HasOutcome.exists_other {r : Roll} {o : RollOutcome} (h : r.HasOutcome o) {losing : Int}
    (hlosing : o.losingTotal = some losing) :
    ∃ other, r.Shows other ∧ losing = signedSum other + r.modifiers.sum := by
  by_cases hmode : r.mode = .normal
  · rw [h.once hmode] at hlosing
    cases hlosing
  · obtain ⟨other, hother, hsome⟩ := h.twice hmode
    rw [hsome] at hlosing
    exact ⟨other, hother, (Option.some.inj hlosing).symm⟩

end Roll

end DiceBot
