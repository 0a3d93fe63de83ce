import DiceBot.Proofs.NumeralReading

/-!
# How numbers are written

A natural number is written as a run of digits, and an integer as one behind a minus sign if it
is negative. What is written denotes the number it was written for, and no numeral denotes two
integers. Digits are what their number is written as, unless they begin with a zero too many.
-/
namespace DiceBot

theorem isDigits_toString (n : Nat) : IsDigits (toString n) := by
  constructor
  · rw [Nat.toString_eq_ofList_toDigits, String.toList_ofList]
    exact Nat.toDigits_ne_nil
  · rw [Nat.toString_eq_ofList_toDigits, String.toList_ofList, List.all_eq_true]
    intro c hc
    exact Nat.isDigit_of_mem_toDigits (by decide) (by decide) hc

theorem decimal_toString (n : Nat) : decimal (toString n) = n := by
  rw [decimal, Nat.toString_eq_ofList_toDigits, String.toList_ofList,
    Nat.ofDigitChars_ten_toDigits]

theorem toString_nat_injective : Function.Injective (toString : Nat → String) :=
  Function.LeftInverse.injective decimal_toString

theorem value_lt_of_isDigit {c : Char} (hc : c.isDigit) : c.toNat - '0'.toNat < 10 := by
  have hzero : '0'.toNat = 48 := rfl
  have hnine : '9'.toNat = 57 := rfl
  have hhigh := (Char.isDigit_iff_toNat.mp hc).2
  omega

/-- A digit is what its value is written as. -/
theorem toDigits_of_isDigit {c : Char} (hc : c.isDigit) :
    Nat.toDigits 10 (c.toNat - '0'.toNat) = [c] := by
  have hlt := value_lt_of_isDigit hc
  have hzero : '0'.toNat = 48 := rfl
  have hlow := (Char.isDigit_iff_toNat.mp hc).1
  rw [Nat.toDigits_of_lt_base hlt, List.singleton_inj, ← Char.toNat_inj,
    Nat.toNat_digitChar_of_lt_ten hlt]
  omega

/-- Digits behind those of a positive number write the number that all of them denote. -/
theorem toDigits_append {n : Nat} (hn : 0 < n) {cs : List Char} (hcs : cs.all Char.isDigit) :
    Nat.toDigits 10 n ++ cs = Nat.toDigits 10 (Nat.ofDigitChars 10 cs n) := by
  induction cs generalizing n with
  | nil => simp
  | cons c cs ih =>
    rw [List.all_cons, Bool.and_eq_true] at hcs
    have hdigit : Nat.toDigits 10 n ++ [c] = Nat.toDigits 10 (10 * n + (c.toNat - '0'.toNat)) := by
      rw [← Nat.toDigits_append_toDigits (by decide) hn (value_lt_of_isDigit hcs.1),
        toDigits_of_isDigit hcs.1]
    calc Nat.toDigits 10 n ++ c :: cs = Nat.toDigits 10 n ++ [c] ++ cs := by simp
      _ = Nat.toDigits 10 (10 * n + (c.toNat - '0'.toNat)) ++ cs := by rw [hdigit]
      _ = Nat.toDigits 10 (Nat.ofDigitChars 10 (c :: cs) n) := by
        rw [ih (by omega) hcs.2, Nat.ofDigitChars_cons]

/-- Only zero is written with a zero in front. -/
theorem head?_toDigits_ne_zero {n : Nat} (hn : 0 < n) : (Nat.toDigits 10 n).head? ≠ some '0' := by
  induction n using Nat.strongRecOn with
  | ind n ih =>
    by_cases hlt : n < 10
    · rw [Nat.toDigits_of_lt_base hlt, List.head?_cons, ne_eq, Option.some.injEq,
        Nat.digitChar_eq_zero]
      omega
    · have hne : Nat.toDigits 10 (n / 10) ≠ [] := Nat.toDigits_ne_nil
      obtain ⟨c, cs, hchars⟩ := List.exists_cons_of_ne_nil hne
      have hfirst := ih (n / 10) (by omega) (by omega)
      rw [hchars] at hfirst
      rw [Nat.toDigits_of_base_le (by decide) (Nat.not_lt.mp hlt), hchars]
      exact hfirst

/-- Digits are how the number that they denote is written, just if they do not begin with a zero
or are one zero. -/
theorem toString_decimal_iff {digits : String} (hd : IsDigits digits) :
    toString (decimal digits) = digits ↔ digits.toList.head? ≠ some '0' ∨ digits = "0" := by
  have hlist : (toString (decimal digits)).toList = Nat.toDigits 10 (decimal digits) := by
    rw [Nat.toString_eq_ofList_toDigits, String.toList_ofList]
  constructor
  · intro h
    rcases Nat.eq_zero_or_pos (decimal digits) with hzero | hpos
    · rw [hzero] at h
      exact .inr h.symm
    · left
      rw [h] at hlist
      rw [hlist]
      exact head?_toDigits_ne_zero hpos
  · rintro (hhead | rfl)
    · obtain ⟨c, cs, hchars, hc, hcs⟩ := hd.exists_cons
      have hpos : 0 < c.toNat - '0'.toNat := by
        refine Nat.pos_of_ne_zero fun hzero => hhead ?_
        have hdigit := toDigits_of_isDigit hc
        rw [hzero, Nat.toDigits_zero, List.singleton_inj] at hdigit
        rw [hchars, ← hdigit, List.head?_cons]
      have hvalue : decimal digits = Nat.ofDigitChars 10 cs (c.toNat - '0'.toNat) := by
        rw [decimal, hchars, Nat.ofDigitChars_cons, Nat.mul_zero, Nat.zero_add]
      rw [← String.toList_inj, hlist, hvalue, ← toDigits_append hpos hcs, toDigits_of_isDigit hc,
        hchars]
      rfl
    · rfl

theorem toString_decimal_of_pos {digits : String} (hd : IsDigits digits)
    (hpos : 0 < decimal digits) :
    toString (decimal digits) = digits ↔ digits.toList.head? ≠ some '0' := by
  rw [toString_decimal_iff hd, or_iff_left]
  rintro rfl
  exact absurd hpos (by decide)

/-- Only a negative integer is written with its sign. -/
theorem toString_int (n : Int) :
    toString n = (if n < 0 then "-" else "") ++ toString n.natAbs := by
  rw [Int.toString_eq_repr, Int.repr_eq_if, Nat.toString_eq_repr]
  by_cases hn : 0 ≤ n
  · rw [if_pos hn, if_neg (Int.not_lt.mpr hn), String.empty_append]
    congr 1
    omega
  · rw [if_neg hn, if_pos (Int.not_le.mp hn)]
    congr 2
    omega

/-- The sign and the size of an integer make up the integer. -/
theorem signedValue_natAbs (n : Int) : signedValue (n < 0) n.natAbs = n := by
  unfold signedValue
  split
  · have hneg : n < 0 := by simpa using ‹decide (n < 0) = true›
    omega
  · have hpos : ¬ n < 0 := by simpa using ‹¬ decide (n < 0) = true›
    omega

/-- The text is digits, maybe behind a minus sign, and denotes the integer. -/
def IsNumeral (text : String) (n : Int) : Prop :=
  ∃ negative digits, IsDigits digits ∧ text = (if negative then "-" else "") ++ digits ∧
    n = signedValue negative (decimal digits)

theorem isNumeral_digits {digits : String} (h : IsDigits digits) :
    IsNumeral digits (decimal digits) :=
  ⟨false, digits, h, by simp, rfl⟩

theorem isNumeral_toString (n : Int) : IsNumeral (toString n) n :=
  ⟨n < 0, toString n.natAbs, isDigits_toString _, by simpa using toString_int n,
    by rw [decimal_toString, signedValue_natAbs]⟩

namespace IsNumeral

variable {text : String} {n n' : Int}

/-- The type that has negative numbers reads every numeral as what it denotes. -/
theorem value?_eq (h : IsNumeral text n) : NumberType.int32.value? text.toList = some n := by
  obtain ⟨negative, digits, hd, rfl, rfl⟩ := h
  exact NumberType.value?_signed negative hd

theorem unique (h : IsNumeral text n) (h' : IsNumeral text n') : n = n' :=
  Option.some.inj (h.value?_eq.symm.trans h'.value?_eq)

end IsNumeral

theorem toString_int_injective : Function.Injective (toString : Int → String) :=
  fun n n' h => (h ▸ isNumeral_toString n).unique (isNumeral_toString n')

end DiceBot
