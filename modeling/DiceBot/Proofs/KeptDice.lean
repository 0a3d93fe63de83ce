import DiceBot.Proofs.RolledDice
import Mathlib.Algebra.Order.Ring.Int

/-!
# Which dice a roll keeps

A roll in the normal mode keeps the dice it rolls. With advantage or disadvantage the same
dice are rolled twice, the second time on the source as the first time left it, and one of
the two sets is kept as a whole: the second if its signed sum is strictly better, otherwise
the first. The modifiers count in the total and in the losing total.
-/
namespace DiceBot

variable {ρ ε : Type} [Source ρ ε]

def signedSum (outcomes : List DieOutcome) : Int :=
  (outcomes.map fun o => (if o.die.negative then -1 else 1) * (o.values.sum : Int)).sum

namespace Roll

/-- `r.Makes s s' kept total losing`: on a source in state `s`, which is left in `s'`, the
roll keeps some dice for its total, with the losing total of the others if there are any. -/
inductive Makes (r : Roll) (s : ρ) : ρ → List DieOutcome → Int → Option Int → Prop
  | normal {first : List DieOutcome} {s₁ : ρ} :
      r.mode = .normal → Rolled s r.dice first s₁ →
      Makes r s s₁ first (signedSum first + r.modifiers.sum) none
  | advantage {first second : List DieOutcome} {s₁ s₂ : ρ} :
      r.mode = .advantage → Rolled s r.dice first s₁ → Rolled s₁ r.dice second s₂ →
      Makes r s s₂ (if signedSum second > signedSum first then second else first)
        (max (signedSum first) (signedSum second) + r.modifiers.sum)
        (some (min (signedSum first) (signedSum second) + r.modifiers.sum))
  | disadvantage {first second : List DieOutcome} {s₁ s₂ : ρ} :
      r.mode = .disadvantage → Rolled s r.dice first s₁ → Rolled s₁ r.dice second s₂ →
      Makes r s s₂ (if signedSum second < signedSum first then second else first)
        (min (signedSum first) (signedSum second) + r.modifiers.sum)
        (some (max (signedSum first) (signedSum second) + r.modifiers.sum))

end Roll

theorem DieOutcome.signedTotal_eq (o : DieOutcome) :
    o.signedTotal = (if o.die.negative then -1 else 1) * (o.values.sum : Int) := by
  have hsubtotal : o.subtotal = o.values.sum := rfl
  rw [DieOutcome.signedTotal, hsubtotal]
  split
  · rw [Int.neg_one_mul]
  · rw [Int.one_mul]

theorem diceTotal_eq_signedSum (outcomes : List DieOutcome) :
    diceTotal outcomes = signedSum outcomes := by
  have hmap : outcomes.map DieOutcome.signedTotal =
      outcomes.map fun o => (if o.die.negative then -1 else 1) * (o.values.sum : Int) :=
    List.map_congr_left fun o _ => o.signedTotal_eq
  rw [diceTotal, hmap]
  rfl

theorem RollOutcome.total_eq (o : RollOutcome) :
    o.total = signedSum o.dice + o.modifiers.sum := by
  rw [RollOutcome.total, RollOutcome.rollTotal, diceTotal_eq_signedSum]
  rfl

namespace Roll

theorem modifierTotal_eq (r : Roll) : r.modifierTotal = r.modifiers.sum := rfl

theorem evaluate_eq_ok {r : Roll} {o : RollOutcome} {s s' : ρ} :
    r.evaluate s = .ok o s' ↔
      ∃ first s₁, Rolled s r.dice first s₁ ∧
        (r.mode = .normal ∧ s₁ = s' ∧ ⟨first, r.modifiers, r.mode, none⟩ = o ∨
          r.mode ≠ .normal ∧
            ∃ second, Rolled s₁ r.dice second s' ∧ r.choose first second = o) := by
  rw [evaluate, bind_apply_eq_ok]
  simp only [rollDice_eq_ok]
  refine exists_congr fun first => exists_congr fun s₁ => and_congr_right fun _ => ?_
  by_cases hmode : r.mode = .normal
  · simp [hmode, pure_apply_eq_ok, and_comm]
  · simp only [hmode, if_false, bind_apply_eq_ok, rollDice_eq_ok, pure_apply_eq_ok]
    constructor
    · rintro ⟨second, _, hsecond, ho, rfl⟩
      exact .inr ⟨hmode, second, hsecond, ho⟩
    · rintro (⟨hnormal, -⟩ | ⟨-, second, hsecond, ho⟩)
      · exact hnormal.elim
      · exact ⟨second, _, hsecond, ho, rfl⟩

private theorem keep_total (r : Roll) (kept other : List DieOutcome) :
    (r.keep kept other).total = signedSum kept + r.modifiers.sum :=
  RollOutcome.total_eq _

private theorem keep_losingTotal (r : Roll) (kept other : List DieOutcome) :
    (r.keep kept other).losingTotal = some (signedSum other + r.modifiers.sum) := by
  rw [keep, diceTotal_eq_signedSum, modifierTotal_eq]

private theorem choose_eq (r : Roll) (first second : List DieOutcome) :
    r.choose first second =
      if r.mode.Prefers (signedSum second) (signedSum first) then r.keep second first
      else r.keep first second := by
  simp only [choose, diceTotal_eq_signedSum]

private theorem choose_modifiers (r : Roll) (first second : List DieOutcome) :
    (r.choose first second).modifiers = r.modifiers := by
  rw [choose_eq]
  split <;> rfl

private theorem choose_mode (r : Roll) (first second : List DieOutcome) :
    (r.choose first second).mode = r.mode := by
  rw [choose_eq]
  split <;> rfl

/-- The sum that is kept and the one that is not, given what the mode prefers. -/
private theorem choose_sums {r : Roll} {first second : List DieOutcome} {kept other : Int}
    (hsecond : r.mode.Prefers (signedSum second) (signedSum first) →
      kept = signedSum second ∧ other = signedSum first)
    (hfirst : ¬ r.mode.Prefers (signedSum second) (signedSum first) →
      kept = signedSum first ∧ other = signedSum second) :
    (r.choose first second).dice =
        (if r.mode.Prefers (signedSum second) (signedSum first) then second else first) ∧
      (r.choose first second).total = kept + r.modifiers.sum ∧
      (r.choose first second).losingTotal = some (other + r.modifiers.sum) := by
  rw [choose_eq]
  by_cases hprefers : r.mode.Prefers (signedSum second) (signedSum first)
  · obtain ⟨rfl, rfl⟩ := hsecond hprefers
    rw [if_pos hprefers, if_pos hprefers]
    exact ⟨rfl, keep_total .., keep_losingTotal ..⟩
  · obtain ⟨rfl, rfl⟩ := hfirst hprefers
    rw [if_neg hprefers, if_neg hprefers]
    exact ⟨rfl, keep_total .., keep_losingTotal ..⟩

theorem choose_advantage {r : Roll} (hmode : r.mode = .advantage)
    (first second : List DieOutcome) :
    (r.choose first second).dice =
        (if signedSum second > signedSum first then second else first) ∧
      (r.choose first second).total =
        max (signedSum first) (signedSum second) + r.modifiers.sum ∧
      (r.choose first second).losingTotal =
        some (min (signedSum first) (signedSum second) + r.modifiers.sum) := by
  have hprefers : r.mode.Prefers (signedSum second) (signedSum first) ↔
      signedSum first < signedSum second := by
    rw [hmode]
    rfl
  simp only [gt_iff_lt, ← hprefers]
  apply choose_sums
  · intro hsecond
    have hlt := hprefers.mp hsecond
    exact ⟨max_eq_right (le_of_lt hlt), min_eq_left (le_of_lt hlt)⟩
  · intro hfirst
    have hle := not_lt.mp (mt hprefers.mpr hfirst)
    exact ⟨max_eq_left hle, min_eq_right hle⟩

theorem choose_disadvantage {r : Roll} (hmode : r.mode = .disadvantage)
    (first second : List DieOutcome) :
    (r.choose first second).dice =
        (if signedSum second < signedSum first then second else first) ∧
      (r.choose first second).total =
        min (signedSum first) (signedSum second) + r.modifiers.sum ∧
      (r.choose first second).losingTotal =
        some (max (signedSum first) (signedSum second) + r.modifiers.sum) := by
  have hprefers : r.mode.Prefers (signedSum second) (signedSum first) ↔
      signedSum second < signedSum first := by
    rw [hmode]
    rfl
  simp only [← hprefers]
  apply choose_sums
  · intro hsecond
    have hlt := hprefers.mp hsecond
    exact ⟨min_eq_right (le_of_lt hlt), max_eq_left (le_of_lt hlt)⟩
  · intro hfirst
    have hle := not_lt.mp (mt hprefers.mpr hfirst)
    exact ⟨min_eq_left hle, max_eq_right hle⟩

/-- A roll makes one outcome out of the dice it rolls: it returns whenever the dice it needs
are rolled, and every outcome it returns is of this kind. -/
theorem evaluate_makes (r : Roll) (s : ρ) :
    (∀ s' kept total losing, r.Makes s s' kept total losing →
      ∃ o, r.evaluate s = .ok o s' ∧ o.dice = kept ∧ o.total = total ∧
        o.losingTotal = losing ∧ o.modifiers = r.modifiers ∧ o.mode = r.mode) ∧
    (∀ s' o, r.evaluate s = .ok o s' →
      r.Makes s s' o.dice o.total o.losingTotal ∧ o.modifiers = r.modifiers ∧
        o.mode = r.mode) := by
  constructor
  · intro s' kept total losing hmakes
    cases hmakes with
    | normal hmode hfirst =>
      refine ⟨⟨kept, r.modifiers, r.mode, none⟩, ?_, rfl, RollOutcome.total_eq _, rfl, rfl, rfl⟩
      exact evaluate_eq_ok.mpr ⟨kept, s', hfirst, .inl ⟨hmode, rfl, rfl⟩⟩
    | @advantage first second s₁ _ hmode hfirst hsecond =>
      obtain ⟨hdice, htotal, hlosing⟩ := choose_advantage hmode first second
      have hnormal : r.mode ≠ .normal := by simp [hmode]
      refine ⟨r.choose first second, ?_, hdice, htotal, hlosing, choose_modifiers ..,
        choose_mode ..⟩
      exact evaluate_eq_ok.mpr ⟨first, s₁, hfirst, .inr ⟨hnormal, second, hsecond, rfl⟩⟩
    | @disadvantage first second s₁ _ hmode hfirst hsecond =>
      obtain ⟨hdice, htotal, hlosing⟩ := choose_disadvantage hmode first second
      have hnormal : r.mode ≠ .normal := by simp [hmode]
      refine ⟨r.choose first second, ?_, hdice, htotal, hlosing, choose_modifiers ..,
        choose_mode ..⟩
      exact evaluate_eq_ok.mpr ⟨first, s₁, hfirst, .inr ⟨hnormal, second, hsecond, rfl⟩⟩
  · intro s' o heval
    obtain ⟨first, s₁, hfirst, ⟨hmode, rfl, rfl⟩ | ⟨hnormal, second, hsecond, rfl⟩⟩ :=
      evaluate_eq_ok.mp heval
    · refine ⟨?_, rfl, rfl⟩
      rw [RollOutcome.total_eq]
      exact .normal hmode hfirst
    · refine ⟨?_, choose_modifiers .., choose_mode ..⟩
      cases hmode : r.mode with
      | normal => exact absurd hmode hnormal
      | advantage =>
        obtain ⟨hdice, htotal, hlosing⟩ := choose_advantage hmode first second
        rw [hdice, htotal, hlosing]
        exact .advantage hmode hfirst hsecond
      | disadvantage =>
        obtain ⟨hdice, htotal, hlosing⟩ := choose_disadvantage hmode first second
        rw [hdice, htotal, hlosing]
        exact .disadvantage hmode hfirst hsecond

example : ∃ o, (Roll.mk [⟨2, 6, false, by decide, by decide⟩] [1] .advantage (by simp)
      (by decide) (by decide)).evaluate (⟨[3, 4, 5, 2, 6]⟩ : Script) = .ok o ⟨[6]⟩ ∧
    o.dice.map DieOutcome.values = [[3, 4]] ∧ o.total = 8 ∧ o.losingTotal = some 8 :=
  ⟨_, rfl, by decide, by decide, by decide⟩

end Roll

end DiceBot
