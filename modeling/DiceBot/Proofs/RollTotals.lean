import DiceBot.Proofs.FallibleSteps
import DiceBot.Proofs.RollSequences
import Mathlib.Algebra.Order.BigOperators.Group.List
import Mathlib.Algebra.Order.Ring.Nat

/-!
# How many rolls a command makes

The number is known before any die is rolled: it is the sum of the repeats. Making the
command has as many outcomes, and the number is what a bound on the rolls is compared with.
-/
namespace DiceBot

private theorem length_of_mapM_eq_ok {ε ρ α β : Type} {f : α → EStateM ε ρ β} {l : List α}
    {bs : List β} {s s' : ρ} (h : l.mapM f s = .ok bs s') : bs.length = l.length := by
  induction l generalizing bs s with
  | nil =>
    rw [List.mapM_nil, pure_apply_eq_ok] at h
    obtain ⟨rfl, rfl⟩ := h
    rfl
  | cons a l ih =>
    rw [List.mapM_cons, bind_apply_eq_ok] at h
    obtain ⟨b, s₁, -, hrest⟩ := h
    obtain ⟨later, s₂, hlater, hpure⟩ := bind_apply_eq_ok.mp hrest
    obtain ⟨rfl, rfl⟩ := pure_apply_eq_ok.mp hpure
    rw [List.length_cons, List.length_cons, ih hlater]

/-- A sum is no more than so many times a bound of its terms. -/
theorem sum_map_le {α : Type} {f : α → Nat} {l : List α} {most : Nat}
    (h : ∀ a ∈ l, f a ≤ most) : (l.map f).sum ≤ l.length * most := by
  have hsum : (l.map f).sum ≤ (l.map f).length • most := by
    apply List.sum_le_card_nsmul
    intro n hn
    obtain ⟨a, ha, rfl⟩ := List.mem_map.mp hn
    exact h a ha
  rwa [List.length_map] at hsum

namespace RollCommand

theorem totalRolls_eq_sum (c : RollCommand) : c.totalRolls = (c.entries.map Entry.repeats).sum :=
  rfl

theorem length_rolls (c : RollCommand) : c.rolls.length = c.totalRolls := by
  rw [rolls, List.length_flatMap, totalRolls_eq_sum]
  simp only [Entry.rolls, List.length_replicate]

theorem length_entries_le (c : RollCommand) : c.entries.length ≤ c.totalRolls := by
  rw [totalRolls_eq_sum, ← List.length_map (f := Entry.repeats)]
  apply List.length_le_sum_of_one_le
  intro n hn
  obtain ⟨e, -, rfl⟩ := List.mem_map.mp hn
  exact Int.ofNat_le.mp e.repeats_admitted.1

theorem totalRolls_pos (c : RollCommand) : 1 ≤ c.totalRolls :=
  Nat.le_trans (Nat.le_add_left 1 c.others.length) c.length_entries_le

/-- With fewer entries than a word of 32 bits can count, no part of the sum needs more than
64 bits. -/
theorem sum_repeats_lt {c : RollCommand} (h : c.entries.length < UInt32.size) (n : Nat) :
    ((c.entries.take n).map Entry.repeats).sum < UInt64.size := by
  have hlength : (c.entries.take n).length ≤ 4294967295 := by
    have hle := List.length_take_le' n c.entries
    simp only [UInt32.size] at h
    omega
  have hrepeats : ∀ e ∈ c.entries.take n, e.repeats ≤ 4294967295 :=
    fun e _ => Int.ofNat_le.mp e.repeats_admitted.2
  calc ((c.entries.take n).map Entry.repeats).sum
      ≤ (c.entries.take n).length * 4294967295 := sum_map_le hrepeats
    _ ≤ 4294967295 * 4294967295 := Nat.mul_le_mul_right _ hlength
    _ < UInt64.size := by decide

def totalWord (c : RollCommand) : UInt64 :=
  (c.entries.map Entry.repeats).foldl (fun total n => total + n.toUInt64) 0

private theorem toNat_foldl_add (l : List Nat) (total : UInt64)
    (h : total.toNat + l.sum < UInt64.size) :
    (l.foldl (fun total n => total + n.toUInt64) total).toNat = total.toNat + l.sum := by
  induction l generalizing total with
  | nil => simp
  | cons n l ih =>
    rw [List.sum_cons] at h
    have hn : n.toUInt64.toNat = n := UInt64.toNat_ofNat_of_lt' (by omega)
    have hadd : (total + n.toUInt64).toNat = total.toNat + n := by
      rw [UInt64.toNat_add, hn]
      exact Nat.mod_eq_of_lt (by simp only [UInt64.size] at h; omega)
    rw [List.foldl_cons, ih _ (by omega), hadd, List.sum_cons]
    omega

theorem toNat_totalWord {c : RollCommand} (h : c.entries.length < UInt32.size) :
    c.totalWord.toNat = c.totalRolls := by
  have hsum := sum_repeats_lt h c.entries.length
  rw [List.take_length] at hsum
  rw [totalWord, toNat_foldl_add _ 0 (by simpa using hsum), totalRolls_eq_sum]
  simp

/-- Making a command has one outcome for each of its rolls. -/
theorem length_of_evaluate {ρ ε : Type} [Source ρ ε] {c : RollCommand} {s s' : ρ}
    {outcomes : List RollOutcome} (h : c.evaluate s = .ok outcomes s') :
    outcomes.length = c.totalRolls := by
  rw [evaluate_eq_mapM] at h
  rw [length_of_mapM_eq_ok h, length_rolls]

theorem totalRolls_admitted {c : RollCommand} {most : Nat} :
    (Limit.totalRolls most).Admits c.totalRolls ↔ c.totalRolls ≤ most := by
  have hpos := c.totalRolls_pos
  simp only [Limit.Admits, Limit.totalRolls]
  omega

def tooManyRolls (c : RollCommand) (most : Nat) : Error :=
  .outOfRange (Limit.totalRolls most) (toString (c.totalRolls : Int))

theorem ensureMaxRolls_eq_error {c : RollCommand} {most : Nat} (h : most < c.totalRolls) :
    c.ensureMaxRolls most = .error (c.tooManyRolls most) := by
  have hadmits : ¬ (Limit.totalRolls most).Admits c.totalRolls :=
    mt totalRolls_admitted.mp (Nat.not_le_of_lt h)
  rw [ensureMaxRolls, Limit.check, dif_neg hadmits]
  rfl

theorem ensureMaxRolls_eq_ok {c : RollCommand} {most : Nat} :
    c.ensureMaxRolls most = .ok () ↔ c.totalRolls ≤ most := by
  constructor
  · intro hok
    by_contra h
    rw [ensureMaxRolls_eq_error (Nat.lt_of_not_le h)] at hok
    cases hok
  · intro h
    rw [ensureMaxRolls, Limit.check, dif_pos (totalRolls_admitted.mpr h)]
    rfl

theorem ensureWithin_eq_ok {c : RollCommand} {maxRolls : Option Nat} :
    c.ensureWithin maxRolls = .ok () ↔ ∀ most, maxRolls = some most → c.totalRolls ≤ most := by
  cases maxRolls with
  | none => simp [ensureWithin]
  | some most => simp [ensureWithin, ensureMaxRolls_eq_ok]

/-- The number of rolls of a command is the same however it is come by. -/
structure Totals (c : RollCommand) : Prop where
  sum : c.totalRolls = (c.entries.map Entry.repeats).sum
  /-- A word of 64 bits holds the sum and every part of it. -/
  word : c.totalWord.toNat = c.totalRolls
  parts : ∀ n, ((c.entries.take n).map Entry.repeats).sum < UInt64.size
  entries : c.entries.length ≤ c.totalRolls
  outcomes : ∀ {ρ ε : Type} [Source ρ ε] (s s' : ρ) (outcomes : List RollOutcome),
    c.evaluate s = .ok outcomes s' → outcomes.length = c.totalRolls
  ensured : ∀ most, c.ensureMaxRolls most = .ok () ↔ c.totalRolls ≤ most

theorem totals {c : RollCommand} (h : c.entries.length < UInt32.size) : c.Totals where
  sum := c.totalRolls_eq_sum
  word := toNat_totalWord h
  parts := sum_repeats_lt h
  entries := c.length_entries_le
  outcomes _ _ _ := length_of_evaluate
  ensured _ := ensureMaxRolls_eq_ok

end RollCommand

end DiceBot
