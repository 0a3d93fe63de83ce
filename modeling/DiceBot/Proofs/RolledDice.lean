import DiceBot.Proofs.FallibleSteps
import DiceBot.RollEvaluation

/-!
# Dice rolled on a source

Rolling is described as a relation between the state of the source before and after,
with one draw for each die. The dice of a roll are rolled in the order they are written,
each term as often as its count says; whatever is drawn shows a face of the die.
-/
namespace DiceBot

variable {ρ ε : Type} [Source ρ ε]

/-- Draws for dice of the same number of sides, with the faces they show. -/
inductive Drawn (sides : Nat) : ρ → List Nat → ρ → Prop
  | nil (s : ρ) : Drawn sides s [] s
  | cons {s s₁ s₂ : ρ} {value : Nat} {faces : List Nat} :
      Source.draw sides s = .ok value s₁ → Drawn sides s₁ faces s₂ →
      Drawn sides s (max 1 (min value sides) :: faces) s₂

/-- Dice rolled in order, each term with as many draws as its count. -/
inductive Rolled : ρ → List Die → List DieOutcome → ρ → Prop
  | nil (s : ρ) : Rolled s [] [] s
  | cons {s s₁ s₂ : ρ} {d : Die} {ds : List Die} {faces : List Nat}
      {outcomes : List DieOutcome} :
      faces.length = d.count → Drawn d.sides s faces s₁ → Rolled s₁ ds outcomes s₂ →
      Rolled s (d :: ds) (⟨d, faces⟩ :: outcomes) s₂

private theorem face_eq_ok {sides face : Nat} {s s₁ : ρ} :
    Source.face sides s = .ok face s₁ ↔
      ∃ value, Source.draw sides s = .ok value s₁ ∧ max 1 (min value sides) = face :=
  map_apply_eq_ok

private theorem drawFaces_eq_ok {count sides : Nat} {faces : List Nat} {s s₁ : ρ} :
    (List.replicate count sides).mapM Source.face s = .ok faces s₁ ↔
      faces.length = count ∧ Drawn sides s faces s₁ := by
  induction count generalizing faces s s₁ with
  | zero =>
    rw [List.replicate_zero, List.mapM_nil, pure_apply_eq_ok]
    constructor
    · rintro ⟨rfl, rfl⟩
      exact ⟨rfl, .nil s⟩
    · rintro ⟨hlength, hdrawn⟩
      cases hdrawn with
      | nil => exact ⟨rfl, rfl⟩
      | cons => simp at hlength
  | succ count ih =>
    rw [List.replicate_succ, List.mapM_cons, bind_apply_eq_ok]
    simp only [bind_apply_eq_ok, pure_apply_eq_ok, face_eq_ok, ih]
    constructor
    · rintro ⟨_, s', ⟨value, hdraw, rfl⟩, rest, _, ⟨hlength, hdrawn⟩, rfl, rfl⟩
      exact ⟨by simp [hlength], .cons hdraw hdrawn⟩
    · rintro ⟨hlength, hdrawn⟩
      cases hdrawn with
      | nil => simp at hlength
      | cons hdraw hrest =>
        exact ⟨_, _, ⟨_, hdraw, rfl⟩, _, _, ⟨by simpa using hlength, hrest⟩, rfl, rfl⟩

theorem Die.roll_eq_ok {d : Die} {o : DieOutcome} {s s₁ : ρ} :
    d.roll s = .ok o s₁ ↔
      ∃ faces, faces.length = d.count ∧ Drawn d.sides s faces s₁ ∧ ⟨d, faces⟩ = o := by
  rw [Die.roll, bind_apply_eq_ok]
  simp only [pure_apply_eq_ok, drawFaces_eq_ok]
  constructor
  · rintro ⟨faces, _, ⟨hlength, hdrawn⟩, ho, rfl⟩
    exact ⟨faces, hlength, hdrawn, ho⟩
  · rintro ⟨faces, hlength, hdrawn, ho⟩
    exact ⟨faces, _, ⟨hlength, hdrawn⟩, ho, rfl⟩

private theorem rollAll_eq_ok {ds : List Die} {outcomes : List DieOutcome} {s s₁ : ρ} :
    ds.mapM Die.roll s = .ok outcomes s₁ ↔ Rolled s ds outcomes s₁ := by
  induction ds generalizing outcomes s s₁ with
  | nil =>
    rw [List.mapM_nil, pure_apply_eq_ok]
    constructor
    · rintro ⟨rfl, rfl⟩
      exact .nil s
    · intro hrolled
      cases hrolled
      exact ⟨rfl, rfl⟩
  | cons d ds ih =>
    rw [List.mapM_cons, bind_apply_eq_ok]
    simp only [bind_apply_eq_ok, pure_apply_eq_ok, Die.roll_eq_ok, ih]
    constructor
    · rintro ⟨_, s', ⟨faces, hlength, hdrawn, rfl⟩, rest, _, hrest, rfl, rfl⟩
      exact .cons hlength hdrawn hrest
    · intro hrolled
      cases hrolled with
      | cons hlength hdrawn hrest =>
        exact ⟨_, _, ⟨_, hlength, hdrawn, rfl⟩, _, _, hrest, rfl, rfl⟩

theorem Roll.rollDice_eq_ok {r : Roll} {outcomes : List DieOutcome} {s s₁ : ρ} :
    r.rollDice s = .ok outcomes s₁ ↔ Rolled s r.dice outcomes s₁ := rollAll_eq_ok

end DiceBot
