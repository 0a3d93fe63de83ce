import DiceBot.DieOutcomes
import DiceBot.Proofs.FallibleSteps
import DiceBot.SeededSource

/-!
# Draws of the seeded source

The source goes from state to state, and each state gives a word. A draw refuses words until one
of them can be scaled to a face. The states get closer to one whose word is never refused, so fewer
words are refused than there are states. What a word is scaled to is a face of the die already, and
dice show what is drawn.
-/
namespace DiceBot

namespace Seeded

def after (s : Seeded) : Nat → Seeded
  | 0 => s
  | n + 1 => after ⟨increment + s.state⟩ n

def word (s : Seeded) (n : Nat) : UInt32 := (output (s.after (n + 1)).state).toUInt32

/-- The lower half of the product with the number of sides is too small. -/
def Refused (sides : Nat) (word : UInt32) : Prop :=
  word.toNat * sides % UInt32.size < (UInt32.size - sides) % sides

instance (sides : Nat) (word : UInt32) : Decidable (Refused sides word) :=
  inferInstanceAs (Decidable (_ < _))

example : (⟨-increment⟩ : Seeded).word 0 = 0 ∧ ¬ Refused 4 0 ∧ Refused 6 0 := by decide

/-- The upper half of the product, counted from 1. -/
def scaled (sides : Nat) (word : UInt32) : Nat := word.toNat * sides / UInt32.size + 1

/-- A draw of a face for so many sides, as the words of the source come: those in front are refused,
the next one is scaled to the face, and the source goes on behind it. -/
structure Draws (sides : Nat) (s : Seeded) (refused face : Nat) (s' : Seeded) : Prop where
  refuses : ∀ n < refused, Refused sides (s.word n)
  accepts : ¬ Refused sides (s.word refused)
  scales : face = scaled sides (s.word refused)
  goesOn : s' = s.after (refused + 1)

private theorem face?_eq_none {sides : Nat} {word : UInt32} :
    face? sides word = none ↔ Refused sides word := by
  rw [face?, Refused]
  exact ite_eq_left_iff.trans (by simp)

theorem face?_eq_some {sides face : Nat} {word : UInt32} :
    face? sides word = some face ↔ ¬ Refused sides word ∧ face = scaled sides word := by
  rw [face?, Refused, scaled]
  split
  next hlow => simp only [reduceCtorEq, hlow, not_true, false_and]
  next hlow => simp only [Option.some_inj, hlow, not_false_eq_true, true_and, eq_comm]

private theorem Draws.of_refused {sides refused face : Nat} {s s' : Seeded}
    (hword : Refused sides (s.word 0)) (h : Draws sides (s.after 1) refused face s') :
    Draws sides s (refused + 1) face s' where
  refuses n hn := by
    cases n with
    | zero => exact hword
    | succ n => exact h.refuses n (Nat.lt_of_succ_lt_succ hn)
  accepts := h.accepts
  scales := h.scales
  goesOn := h.goesOn

/-- With every word that is refused, the state gets nearer to one whose word is not. -/
theorem exists_draws (sides : Nat) (state : UInt64) :
    ∃ refused ≤ distance state, Draws (max sides 1) ⟨state⟩ refused (drawFace sides state).1
      ⟨(drawFace sides state).2⟩ := by
  fun_induction drawFace sides state with
  | case1 state face hface =>
    obtain ⟨haccepted, hscaled⟩ := face?_eq_some.mp hface
    refine ⟨0, Nat.zero_le _, ?_, haccepted, hscaled, rfl⟩
    intro n hn
    exact absurd hn n.not_lt_zero
  | case2 state hnone ih =>
    obtain ⟨refused, hle, hdraws⟩ := ih
    have hnearer : distance (increment + state) < distance state := distance_lt_of_refused hnone
    exact ⟨refused + 1, by omega, .of_refused (face?_eq_none.mp hnone) hdraws⟩

private theorem distance_lt (state : UInt64) : distance state < UInt64.size :=
  UInt64.toNat_lt_size _

theorem scaled_bounds {sides : Nat} (h : 0 < sides) (word : UInt32) :
    1 ≤ scaled sides word ∧ scaled sides word ≤ sides := by
  have hproduct : word.toNat * sides < UInt32.size * sides :=
    Nat.mul_lt_mul_of_pos_right word.toNat_lt_size h
  have hupper : word.toNat * sides / UInt32.size < sides := Nat.div_lt_of_lt_mul hproduct
  exact ⟨Nat.succ_pos _, hupper⟩

/-- The source with any function in the place of `drawFace`. -/
private theorem draw_mk (drawn : Nat → UInt64 → Nat × UInt64) (sides : Nat) (s : Seeded) :
    (⟨fun sides s =>
      let (face, state) := drawn sides s.state
      .ok face ⟨state⟩⟩ : Source Seeded Empty).draw sides s =
        .ok (drawn sides s.state).1 ⟨(drawn sides s.state).2⟩ := rfl

theorem draw_eq_ok (sides : Nat) (s : Seeded) :
    Source.draw sides s = .ok (drawFace sides s.state).1 ⟨(drawFace sides s.state).2⟩ := by
  have hsource : instSourceSeededEmpty = ⟨fun sides s =>
      let (face, state) := drawFace sides s.state
      .ok face ⟨state⟩⟩ := rfl
  -- by `rfl` alone, the kernel would run the draw
  rewrite [hsource]
  exact draw_mk drawFace sides s

theorem exists_draw_eq_ok (sides : Nat) (s : Seeded) :
    ∃ refused face s', refused < UInt64.size ∧ Draws (max sides 1) s refused face s' ∧
      Source.draw sides s = .ok face s' ∧ 1 ≤ face ∧ face ≤ max sides 1 := by
  obtain ⟨refused, hle, hdraws⟩ := exists_draws sides s.state
  have hlt : refused < UInt64.size := Nat.lt_of_le_of_lt hle (distance_lt s.state)
  refine ⟨refused, _, _, hlt, hdraws, draw_eq_ok sides s, ?_⟩
  rw [hdraws.scales]
  exact scaled_bounds (Nat.le_max_right sides 1) _

/-- What is drawn for a die with sides is one of its faces. -/
theorem face_eq_draw {sides : Nat} (h : 1 ≤ sides) :
    (Source.face sides : EStateM Empty Seeded Nat) = Source.draw sides := by
  funext s
  obtain ⟨-, face, s', -, -, hdraw, hleast, hmost⟩ := exists_draw_eq_ok sides s
  rw [hdraw]
  exact map_apply_eq_ok.mpr ⟨face, hdraw, by omega⟩

private theorem roll_eq_draws (d : Die) :
    (d.roll : EStateM Empty Seeded DieOutcome) =
      DieOutcome.mk d <$> (List.replicate d.count d.sides).mapM Source.draw := by
  have hsides : 1 ≤ d.sides := Nat.le_of_succ_le d.sides_bounds.1
  have hfaces (count : Nat) :
      (List.replicate count d.sides).mapM (Source.face : Nat → EStateM Empty Seeded Nat) =
        (List.replicate count d.sides).mapM Source.draw := by
    induction count with
    | zero => rw [List.replicate_zero, List.mapM_nil, List.mapM_nil]
    | succ count ih =>
      rw [List.replicate_succ, List.mapM_cons, List.mapM_cons, ih, face_eq_draw hsides]
  rw [Die.roll, hfaces, bind_pure_comp]

/-- Every draw ends: from any state and for any number of sides, none included, some word is not
refused, and what it is scaled to is a face of the die, or 1 where there are no sides. So the dice
show what is drawn for them, in the order in which it is drawn. -/
theorem draw_ends :
    (∀ (sides : Nat) (s : Seeded), ∃ refused face s', refused < UInt64.size ∧
      Draws (max sides 1) s refused face s' ∧ Source.draw sides s = .ok face s' ∧
        1 ≤ face ∧ face ≤ max sides 1) ∧
    ∀ (d : Die) (s : Seeded), ∃ values s',
      (List.replicate d.count d.sides).mapM Source.draw s = .ok values s' ∧
        d.roll s = .ok ⟨d, values⟩ s' := by
  refine ⟨exists_draw_eq_ok, fun d s => ?_⟩
  obtain ⟨values, s', hdraws⟩ := exists_apply_eq_ok
    ((List.replicate d.count d.sides).mapM (Source.draw : Nat → EStateM Empty Seeded Nat)) s
  refine ⟨values, s', hdraws, ?_⟩
  rw [roll_eq_draws]
  exact map_apply_eq_ok.mpr ⟨values, hdraws, rfl⟩

end Seeded

end DiceBot
