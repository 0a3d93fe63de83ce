import DiceBot.Proofs.ShownDice
import Mathlib.Algebra.BigOperators.Group.List.Basic

/-!
# Advantage and disadvantage against each other

On a source in the same state the two modes see the same two sets of dice. What one of them has
as its total the other has as its losing total, and they keep different sets unless the sets come
to the same. Mirrored, a roll adds what it took away and takes away what it added; then better is
worse, and each mode keeps for the mirrored roll what the other keeps for the roll itself.
-/
namespace DiceBot

/-- The mode that prefers the other one of two totals. -/
def Mode.opposite : Mode → Mode
  | .normal => .normal
  | .advantage => .disadvantage
  | .disadvantage => .advantage

def Die.mirrored (d : Die) : Die := { d with negative := !d.negative }

def DieOutcome.mirrored (o : DieOutcome) : DieOutcome := ⟨o.die.mirrored, o.values⟩

def Roll.mirrored (r : Roll) : Roll where
  dice := r.dice.map Die.mirrored
  modifiers := r.modifiers.map (-·)
  mode := r.mode
  dice_ne_nil := by simpa using r.dice_ne_nil
  parts_le := by simpa using r.parts_le
  modifiers_admitted := by
    intro m hm
    obtain ⟨n, hn, rfl⟩ := List.mem_map.mp hm
    have hadmitted := r.modifiers_admitted n hn
    simp only [Limit.Admits, Limit.modifier] at hadmitted ⊢
    omega

/-- The same values kept in the opposite mode, with the other sign everywhere. -/
def RollOutcome.mirrored (o : RollOutcome) : RollOutcome :=
  ⟨o.dice.map DieOutcome.mirrored, o.modifiers.map (-·), o.mode.opposite,
    o.losingTotal.map (-·)⟩

private theorem DieOutcome.signedTotal_mirrored (o : DieOutcome) :
    o.mirrored.signedTotal = -o.signedTotal := by
  have hnegative : o.mirrored.die.negative = !o.die.negative := rfl
  have hsubtotal : o.mirrored.subtotal = o.subtotal := rfl
  rw [signedTotal, signedTotal, hnegative, hsubtotal]
  cases o.die.negative <;> simp

theorem diceTotal_mirrored (outcomes : List DieOutcome) :
    diceTotal (outcomes.map DieOutcome.mirrored) = -diceTotal outcomes := by
  have htotal (set : List DieOutcome) :
      diceTotal set = (set.map DieOutcome.signedTotal).sum := rfl
  have hmirrored : (outcomes.map DieOutcome.mirrored).map DieOutcome.signedTotal =
      (outcomes.map DieOutcome.signedTotal).map (-·) := by
    rw [List.map_map, List.map_map]
    exact List.map_congr_left fun o _ => o.signedTotal_mirrored
  rw [htotal, htotal, hmirrored, List.sum_neg]

theorem Roll.modifierTotal_mirrored (r : Roll) : r.mirrored.modifierTotal = -r.modifierTotal :=
  (List.sum_neg r.modifiers).symm

private theorem RollOutcome.total_mirrored (o : RollOutcome) : o.mirrored.total = -o.total := by
  have hdice : o.mirrored.rollTotal = -o.rollTotal := diceTotal_mirrored o.dice
  have hmodifiers : o.mirrored.modifierTotal = -o.modifierTotal :=
    (List.sum_neg o.modifiers).symm
  rw [total, total, hdice, hmodifiers]
  omega

/-- What is better is worse with the other sign. -/
theorem Mode.prefers_opposite (mode : Mode) (total other : Int) :
    mode.opposite.Prefers (-total) (-other) ↔ mode.Prefers total other := by
  cases mode with
  | normal => rfl
  | advantage => exact Int.neg_lt_neg_iff
  | disadvantage => exact Int.neg_lt_neg_iff

namespace Roll

variable (r : Roll) (mode : Mode)

private theorem keep_mirrored (kept other : List DieOutcome) :
    (r.mirrored.withMode mode.opposite).keep (kept.map DieOutcome.mirrored)
        (other.map DieOutcome.mirrored) = ((r.withMode mode).keep kept other).mirrored := by
  have hmodifiers : (r.mirrored.withMode mode.opposite).modifierTotal =
      -(r.withMode mode).modifierTotal := r.modifierTotal_mirrored
  rw [keep, keep, diceTotal_mirrored, hmodifiers, ← Int.neg_add]
  rfl

private theorem choose_mirrored (first second : List DieOutcome) :
    (r.mirrored.withMode mode.opposite).choose (first.map DieOutcome.mirrored)
        (second.map DieOutcome.mirrored) = ((r.withMode mode).choose first second).mirrored := by
  have hprefers : (r.mirrored.withMode mode.opposite).mode.Prefers (-diceTotal second)
      (-diceTotal first) ↔ (r.withMode mode).mode.Prefers (diceTotal second) (diceTotal first) :=
    mode.prefers_opposite _ _
  rw [choose, choose, diceTotal_mirrored, diceTotal_mirrored, keep_mirrored, keep_mirrored]
  simp only [hprefers]
  split <;> rfl

end Roll

variable {ρ ε : Type} [Source ρ ε]

/-- Dice draw the same whatever their sign is. -/
theorem Die.roll_mirrored (d : Die) :
    (d.mirrored.roll : EStateM ε ρ DieOutcome) = DieOutcome.mirrored <$> d.roll := by
  rw [Die.roll, Die.roll, map_bind]
  simp only [map_pure]
  rfl

private theorem mapM_roll_mirrored (ds : List Die) :
    ((ds.map Die.mirrored).mapM Die.roll : EStateM ε ρ (List DieOutcome)) =
      List.map DieOutcome.mirrored <$> ds.mapM Die.roll := by
  induction ds with
  | nil => simp
  | cons d ds ih => simp [ih, d.roll_mirrored]

private theorem Roll.rollDice_mirrored (r : Roll) (mode mode' : Mode) :
    ((r.mirrored.withMode mode').rollDice : EStateM ε ρ (List DieOutcome)) =
      List.map DieOutcome.mirrored <$> (r.withMode mode).rollDice :=
  mapM_roll_mirrored r.dice

theorem Roll.evaluate_mirrored (r : Roll) (mode : Mode) :
    ((r.mirrored.withMode mode.opposite).evaluate : EStateM ε ρ RollOutcome) =
      RollOutcome.mirrored <$> (r.withMode mode).evaluate := by
  rw [evaluate, evaluate, r.rollDice_mirrored mode, bind_map_left, map_bind]
  refine bind_congr fun first => ?_
  have hmode : (r.mirrored.withMode mode.opposite).mode = .normal ↔
      (r.withMode mode).mode = .normal := by
    cases mode <;> simp [withMode, Mode.opposite]
  simp only [hmode]
  split
  · rw [map_pure]
    rfl
  · rw [bind_map_left, map_bind]
    simp only [choose_mirrored, map_pure]

namespace Roll

/-- The outcomes of the two modes when dice show `first` and then `second`. -/
structure Opposed (first second : List DieOutcome) (better worse : RollOutcome) : Prop where
  total : worse.losingTotal = some better.total
  losingTotal : better.losingTotal = some worse.total
  same_iff : better.dice = worse.dice ↔ signedSum first = signedSum second
  tie : signedSum first = signedSum second → better.dice = first ∧ worse.dice = first
  differ : signedSum first ≠ signedSum second → (better.dice = first ↔ worse.dice ≠ first)

/-- How the results of the two modes belong together, on sources that are both in state `s`: they
fail alike, or their outcomes are those of the same dice. -/
inductive OpposedResults (r : Roll) (s : ρ) :
    EStateM.Result ε ρ RollOutcome → EStateM.Result ε ρ RollOutcome → Prop
  | failed (e : ε) (s' : ρ) : OpposedResults r s (.error e s') (.error e s')
  | made {first second : List DieOutcome} {better worse : RollOutcome} {s₁ s₂ : ρ} :
      (r.withMode .normal).evaluate s = .ok ⟨first, r.modifiers, .normal, none⟩ s₁ →
      Rolled s₁ r.dice second s₂ → Opposed first second better worse →
      OpposedResults r s (.ok better s₂) (.ok worse s₂)

private theorem choose_opposed (r : Roll) (first second : List DieOutcome) :
    Opposed first second ((r.withMode .advantage).choose first second)
      ((r.withMode .disadvantage).choose first second) := by
  obtain ⟨hbetter, hmax, hmin⟩ := choose_advantage (r := r.withMode .advantage) rfl first second
  obtain ⟨hworse, hmin', hmax'⟩ :=
    choose_disadvantage (r := r.withMode .disadvantage) rfl first second
  have hkept : ((r.withMode .advantage).choose first second).dice =
        ((r.withMode .disadvantage).choose first second).dice ↔
      signedSum first = signedSum second := by
    rw [hbetter, hworse]
    constructor
    · intro hsame
      have hsums := congrArg signedSum hsame
      split at hsums <;> split at hsums <;> omega
    · intro hsums
      simp [hsums]
  refine ⟨?_, ?_, hkept, fun hsums => ?_, fun hsums => ?_⟩
  · rw [hmax, hmax']
    rfl
  · rw [hmin, hmin']
    rfl
  · rw [hbetter, hworse]
    simp [hsums]
  · have hne : second ≠ first := fun h => hsums (congrArg signedSum h).symm
    rw [hbetter, hworse]
    rcases lt_or_gt_of_ne hsums with hlt | hgt
    · simp [hlt, hne, not_lt_of_gt hlt]
    · simp [hgt, hne, not_lt_of_gt hgt]

theorem evaluate_opposedResults (r : Roll) (s : ρ) :
    OpposedResults r s ((r.withMode .advantage).evaluate s)
      ((r.withMode .disadvantage).evaluate s) := by
  have hmode (mode : Mode) :
      ((r.withMode mode).rollDice : EStateM ε ρ (List DieOutcome)) = r.rollDice := rfl
  have hnormal : (r.withMode .normal).mode = .normal := rfl
  have hadvantage : ¬ (r.withMode .advantage).mode = .normal := nofun
  have hdisadvantage : ¬ (r.withMode .disadvantage).mode = .normal := nofun
  rw [evaluate, evaluate, hmode, hmode]
  cases hfirst : (r.rollDice : EStateM ε ρ (List DieOutcome)) s with
  | error e s₁ =>
    rw [bind_apply_of_error hfirst, bind_apply_of_error hfirst]
    exact .failed e s₁
  | ok first s₁ =>
    rw [bind_apply_of_ok hfirst, bind_apply_of_ok hfirst, if_neg hadvantage, if_neg hdisadvantage]
    cases hsecond : (r.rollDice : EStateM ε ρ (List DieOutcome)) s₁ with
    | error e s₂ =>
      rw [bind_apply_of_error hsecond, bind_apply_of_error hsecond]
      exact .failed e s₂
    | ok second s₂ =>
      rw [bind_apply_of_ok hsecond, bind_apply_of_ok hsecond]
      refine .made ?_ (rollDice_eq_ok.mp hsecond) (r.choose_opposed first second)
      rw [evaluate, hmode, bind_apply_of_ok hfirst, if_pos hnormal]
      rfl

/-- From the same state of a source, advantage and disadvantage leave it in the same state, each
with the other's total as its losing total, and they keep the same dice only in a tie. The mirrored
roll comes to the mirrored outcomes in the opposite modes, with the values that the roll itself
keeps. -/
theorem evaluate_opposed (r : Roll) (s : ρ) :
    OpposedResults r s ((r.withMode .advantage).evaluate s)
        ((r.withMode .disadvantage).evaluate s) ∧
      (∀ mode : Mode, (r.mirrored.withMode mode.opposite).evaluate s =
        (RollOutcome.mirrored <$> (r.withMode mode).evaluate) s) ∧
      ∀ o : RollOutcome, o.mirrored.dice.map DieOutcome.values = o.dice.map DieOutcome.values ∧
        o.mirrored.total = -o.total ∧ o.mirrored.losingTotal = o.losingTotal.map (-·) := by
  refine ⟨r.evaluate_opposedResults s, fun mode => congrFun (r.evaluate_mirrored mode) s,
    fun o => ⟨?_, o.total_mirrored, rfl⟩⟩
  rw [RollOutcome.mirrored, List.map_map]
  rfl

example : ∃ better worse, OpposedResults
    (Roll.mk [⟨2, 6, false, by decide, by decide⟩] [] .normal (by simp) (by decide) (by decide))
    (⟨[3, 4, 1, 6]⟩ : Script) (.ok better ⟨[]⟩) (.ok worse ⟨[]⟩) ∧
    better.dice.map DieOutcome.values = [[3, 4]] ∧ worse.dice = better.dice :=
  ⟨_, _, evaluate_opposedResults _ _, by decide, by decide⟩

end Roll

end DiceBot
