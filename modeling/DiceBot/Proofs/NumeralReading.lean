import DiceBot.Numerals
import DiceBot.Proofs.FallibleSteps

/-!
# What a numeral is read as

A run of digits of any length denotes a number. Held to a limit, it is read as that
number where the limit admits it, and is refused otherwise. It does not matter in which
type it is read, as long as the type holds every number that the limit admits.
-/
namespace DiceBot

def IsDigits (text : String) : Prop := text.toList ≠ [] ∧ text.toList.all Char.isDigit

theorem isDigits_push_empty {c : Char} (h : c.isDigit) : IsDigits ("".push c) := by
  simp [IsDigits, h]

theorem IsDigits.push {text : String} {c : Char} (ht : IsDigits text) (hc : c.isDigit) :
    IsDigits (text.push c) := by
  refine ⟨by simp, ?_⟩
  rw [String.toList_push, List.all_append, ht.2]
  simp [hc]

def decimal (digits : String) : Nat := Nat.ofDigitChars 10 digits.toList 0

def signedValue (negative : Bool) (n : Nat) : Int := if negative then -(n : Int) else n

theorem digitsValue?_eq {digits : String} (h : IsDigits digits) :
    digitsValue? digits.toList = some (decimal digits) := by
  rw [digitsValue?, if_pos ⟨h.1, h.2⟩, decimal]

theorem IsDigits.exists_cons {digits : String} (h : IsDigits digits) :
    ∃ c rest, digits.toList = c :: rest ∧ c.isDigit ∧ rest.all Char.isDigit := by
  obtain ⟨c, rest, hcs⟩ := List.exists_cons_of_ne_nil h.1
  have hall := h.2
  rw [hcs, List.all_cons, Bool.and_eq_true] at hall
  exact ⟨c, rest, hcs, hall⟩

namespace NumberType

theorem value?_digits (t : NumberType) {digits : String} (h : IsDigits digits) :
    t.value? digits.toList = some (decimal digits : Int) := by
  obtain ⟨c, rest, hcs, hc, -⟩ := h.exists_cons
  rw [value?, digitsValue?_eq h]
  · rfl
  · rintro rest' rfl hminus
    rw [hcs] at hminus
    cases hminus
    simp at hc

/-- Only the type that has negative numbers reads a minus sign. -/
theorem value?_signed (negative : Bool) {digits : String} (h : IsDigits digits) :
    int32.value? ((if negative then "-" else "") ++ digits).toList =
      some (signedValue negative (decimal digits)) := by
  cases negative with
  | false => simpa [signedValue] using value?_digits int32 h
  | true => simp [value?, digitsValue?_eq h, signedValue]

end NumberType

namespace Limit

def Fits (l : Limit) (t : NumberType) : Prop := t.least ≤ l.least ∧ l.greatest ≤ t.greatest

instance (l : Limit) (t : NumberType) : Decidable (l.Fits t) :=
  inferInstanceAs (Decidable (_ ∧ _))

variable {l : Limit} {t : NumberType} {text : String} {n : Int}

theorem Admits.holds (h : l.Admits n) (hf : l.Fits t) : t.Holds n :=
  ⟨Int.le_trans hf.1 h.1, Int.le_trans h.2 hf.2⟩

theorem check_admitted (h : l.Admits n) : l.check n = .ok ⟨h⟩ := dif_pos h

theorem check_refused (h : ¬ l.Admits n) : l.check n = .error (.outOfRange l (toString n)) :=
  dif_neg h

theorem read_admitted (hv : t.value? text.toList = some n) (hf : l.Fits t) (h : l.Admits n) :
    l.read t text = .ok ⟨n, h⟩ := by
  have hcheck := check_admitted h
  rw [read, hv]
  dsimp only
  rw [if_pos (h.holds hf), hcheck]
  rfl

/-- A refused number is reported in canonical form, or as it was written if its type does
not hold it. -/
theorem read_refused (hv : t.value? text.toList = some n) (h : ¬ l.Admits n) :
    l.read t text = .error (.outOfRange l (if t.Holds n then toString n else text)) := by
  have hcheck := check_refused h
  rw [read, hv]
  dsimp only
  by_cases ht : t.Holds n
  · rw [if_pos ht, if_pos ht, hcheck]
    rfl
  · rw [if_neg ht, if_neg ht]

end Limit

end DiceBot
