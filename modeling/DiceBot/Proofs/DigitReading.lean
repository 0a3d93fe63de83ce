import DiceBot.Proofs.WrittenNumbers

/-!
# Numerals read digit by digit

A numeral is read into a machine integer from its first digit on. What is held is taken tenfold,
and the next digit is added to it, or taken away from it behind a minus sign. Reading breaks off at
the first step to a number that the type does not hold. Since later digits only lead further away
from zero, it breaks off just if the type does not hold what the whole numeral denotes, however
many zeros stand in front. So a numeral is held to a limit as its exact number is.
-/
namespace DiceBot

private theorem signedValue_add (negative : Bool) (n m : Nat) :
    signedValue negative n + signedValue negative m = signedValue negative (n + m) := by
  cases negative <;> simp only [signedValue, if_true, if_false, Bool.false_eq_true] <;> omega

private theorem signedValue_tenfold (negative : Bool) (n : Nat) :
    10 * signedValue negative n = signedValue negative (10 * n) := by
  cases negative <;> simp only [signedValue, if_true, if_false, Bool.false_eq_true] <;> omega

/-- Digits behind a number do not make it smaller. -/
theorem le_ofDigitChars (cs : List Char) (n : Nat) : n ≤ Nat.ofDigitChars 10 cs n := by
  induction cs generalizing n with
  | nil => exact Nat.le_refl n
  | cons c cs ih =>
    rw [Nat.ofDigitChars_cons]
    exact Nat.le_trans (by omega) (ih _)

inductive Unread where
  | notNumeral | overflow

namespace NumberType

def hold (t : NumberType) (n : Int) : Except Unread Int :=
  if t.Holds n then .ok n else .error .overflow

def pushDigit (t : NumberType) (negative : Bool) (held : Int) (c : Char) : Except Unread Int :=
  if c.isDigit then do
    let tenfold ← t.hold (10 * held)
    t.hold (tenfold + signedValue negative (c.toNat - '0'.toNat))
  else .error .notNumeral

def readDigits (t : NumberType) (negative : Bool) (digits : List Char) : Except Unread Int :=
  if digits = [] then .error .notNumeral else digits.foldlM (t.pushDigit negative) 0

/-- Only a type that has negative numbers reads a minus sign. -/
def readNumeral (t : NumberType) : List Char → Except Unread Int
  | '-' :: digits => if t.least < 0 then t.readDigits true digits else .error .notNumeral
  | digits => t.readDigits false digits

/-- The text is a numeral of the type and denotes the integer: a run of digits, behind a minus sign
only if the type has negative numbers. -/
inductive Denotes (t : NumberType) : String → Int → Prop
  | digits {digits : String} (h : IsDigits digits) : Denotes t digits (decimal digits)
  | minus {digits : String} (hleast : t.least < 0) (h : IsDigits digits) :
      Denotes t ("-" ++ digits) (-(decimal digits : Int))

/-- How far from zero the numbers of the type go, on the side of the sign. -/
def room (t : NumberType) (negative : Bool) : Nat :=
  (if negative then t.least else t.greatest).natAbs

variable {t : NumberType} {negative : Bool} {n : Nat}

theorem holds_signedValue : t.Holds (signedValue negative n) ↔ n ≤ t.room negative := by
  cases t <;> cases negative <;>
    simp only [Holds, room, signedValue, least, greatest, if_true, if_false, Bool.false_eq_true] <;>
    omega

theorem hold_of_holds {n : Int} (h : t.Holds n) : t.hold n = .ok n := if_pos h

theorem hold_of_not_holds {n : Int} (h : ¬ t.Holds n) : t.hold n = .error .overflow := if_neg h

/-- The step breaks off just if the type does not hold the number with the new digit: it holds the
tenfold number if it holds this one. -/
theorem pushDigit_signedValue {c : Char} (hc : c.isDigit) :
    t.pushDigit negative (signedValue negative n) c =
      t.hold (signedValue negative (10 * n + (c.toNat - '0'.toNat))) := by
  rw [pushDigit, if_pos hc, signedValue_tenfold]
  by_cases hheld : t.Holds (signedValue negative (10 * n))
  · rw [hold_of_holds hheld, ok_bind, signedValue_add]
  · have hmore : ¬ t.Holds (signedValue negative (10 * n + (c.toNat - '0'.toNat))) := by
      rw [holds_signedValue] at hheld ⊢
      omega
    rw [hold_of_not_holds hheld, hold_of_not_holds hmore, error_bind]

/-- What is held is always the number of the digits in front, so the digits that are left make up
the whole number from it. -/
theorem foldlM_pushDigit {cs : List Char} (hcs : cs.all Char.isDigit)
    (hn : t.Holds (signedValue negative n)) :
    cs.foldlM (t.pushDigit negative) (signedValue negative n) =
      t.hold (signedValue negative (Nat.ofDigitChars 10 cs n)) := by
  induction cs generalizing n with
  | nil => exact (hold_of_holds hn).symm
  | cons c cs ih =>
    rw [List.all_cons, Bool.and_eq_true] at hcs
    rw [List.foldlM_cons, pushDigit_signedValue hcs.1, Nat.ofDigitChars_cons]
    by_cases hnext : t.Holds (signedValue negative (10 * n + (c.toNat - '0'.toNat)))
    · rw [hold_of_holds hnext, ok_bind, ih hcs.2 hnext]
    · have hlast := hnext
      rw [holds_signedValue, Nat.not_le] at hlast
      have hwhole : ¬ t.Holds (signedValue negative
          (Nat.ofDigitChars 10 cs (10 * n + (c.toNat - '0'.toNat)))) := by
        rw [holds_signedValue, Nat.not_le]
        exact Nat.lt_of_lt_of_le hlast (le_ofDigitChars cs _)
      rw [hold_of_not_holds hnext, hold_of_not_holds hwhole, error_bind]

private theorem readDigits_eq {digits : String} (h : IsDigits digits) :
    t.readDigits negative digits.toList = t.hold (signedValue negative (decimal digits)) := by
  have hzero : (0 : Int) = signedValue negative 0 := by cases negative <;> rfl
  have hheld : t.Holds (signedValue negative 0) := holds_signedValue.mpr (Nat.zero_le _)
  rw [readDigits, if_neg h.1, hzero, foldlM_pushDigit h.2 hheld, decimal]

namespace Denotes

variable {text : String} {n : Int}

/-- Reading a numeral breaks off just if the type does not hold its number. -/
theorem readNumeral_eq (h : t.Denotes text n) : t.readNumeral text.toList = t.hold n := by
  cases h with
  | digits h =>
    obtain ⟨c, rest, hchars, hc, -⟩ := h.exists_cons
    have hsign : c ≠ '-' := by
      rintro rfl
      exact absurd hc (by decide)
    have hread : t.readNumeral text.toList = t.readDigits false text.toList := by
      rw [hchars, readNumeral]
      intro digits hminus
      exact hsign (List.cons.inj hminus).1
    rw [hread, readDigits_eq h, signedValue, if_neg Bool.false_ne_true]
  | minus hleast h =>
    rw [String.toList_append]
    exact (if_pos hleast).trans (readDigits_eq h)

example : uint8.readNumeral "000255".toList = .ok 255 ∧
    uint8.readNumeral "2550".toList = .error .overflow :=
  ⟨rfl, rfl⟩

theorem value?_eq (h : t.Denotes text n) : t.value? text.toList = some n := by
  cases h with
  | digits h => exact value?_digits t h
  | minus hleast h =>
    cases t with
    | int32 => exact value?_signed true h
    | _ => exact absurd hleast (by decide)

end Denotes

end NumberType

/-- The text is how the integer is written without a zero too many: its digits do not begin with a
zero or are one zero, and only a negative integer has a sign. -/
def IsCanonical (text : String) (n : Int) : Prop :=
  ∃ digits, IsDigits digits ∧ (digits.toList.head? ≠ some '0' ∨ digits = "0") ∧
    decimal digits = n.natAbs ∧ text = (if n < 0 then "-" else "") ++ digits

theorem isCanonical_iff {text : String} {n : Int} : IsCanonical text n ↔ text = toString n := by
  rw [toString_int]
  constructor
  · rintro ⟨digits, hd, hzeros, hvalue, rfl⟩
    rw [← hvalue, (toString_decimal_iff hd).mpr hzeros]
  · rintro rfl
    have hd := isDigits_toString n.natAbs
    have hvalue := decimal_toString n.natAbs
    exact ⟨_, hd, (toString_decimal_iff hd).mp (by rw [hvalue]), hvalue, rfl⟩

namespace Limit

/-- Reads a numeral digit by digit and holds the number to the limit. -/
def readByDigits (l : Limit) (t : NumberType) (text : String) :
    Except Error { n : Int // l.Admits n } :=
  match t.readNumeral text.toList with
  | .ok n => do
    let ⟨h⟩ ← l.check n
    pure ⟨n, h⟩
  | .error .overflow => .error (.outOfRange l text)
  | .error .notNumeral => .error (.notANumber text)

variable {l : Limit} {t : NumberType} {text : String} {n : Int}

theorem readByDigits_eq (h : t.Denotes text n) : l.readByDigits t text = l.read t text := by
  rw [readByDigits, read, h.readNumeral_eq, h.value?_eq]
  by_cases hheld : t.Holds n
  · rw [NumberType.hold_of_holds hheld]
    exact (if_pos hheld).symm
  · rw [NumberType.hold_of_not_holds hheld]
    exact (if_neg hheld).symm

/-- However many digits a numeral has, reading it digit by digit in its type comes to what holding
its exact number to the limit does. The number is read just if the limit admits it. Otherwise the
error has the limit and shows the numeral as it was written if its type does not hold the number,
and the number in canonical form if it does. -/
theorem read_numeral (hf : l.Fits t) (h : t.Denotes text n) :
    l.readByDigits t text = l.read t text ∧
    (∀ hn : l.Admits n, l.read t text = .ok ⟨n, hn⟩) ∧
    (¬ l.Admits n → ∃ shown, l.read t text = .error (.outOfRange l shown) ∧
      (¬ t.Holds n → shown = text) ∧ (t.Holds n → IsCanonical shown n)) := by
  refine ⟨readByDigits_eq h, fun hn => read_admitted h.value?_eq hf hn, fun hn => ?_⟩
  refine ⟨_, read_refused h.value?_eq hn, fun hheld => if_neg hheld, fun hheld => ?_⟩
  rw [if_pos hheld]
  exact isCanonical_iff.mpr rfl

/-- One step below the least number of the type, a number is shown as it was written, and a zero
that is taken away is shown without its sign. -/
theorem read_numeral_signed : ∃ l : Limit, l.Fits .int32 ∧
    (NumberType.int32.Denotes "-002147483649" (-2147483649) ∧
      l.read .int32 "-002147483649" = .error (.outOfRange l "-002147483649")) ∧
    (NumberType.int32.Denotes "-000" 0 ∧ l.read .int32 "-000" = .error (.outOfRange l "0")) ∧
    NumberType.int32.Denotes "020" 20 ∧ ∃ hn, l.read .int32 "020" = .ok ⟨20, hn⟩ := by
  have hfits : (⟨"Bonus", 1, 20⟩ : Limit).Fits .int32 := by decide
  have hlow : NumberType.int32.Denotes "-002147483649" (-2147483649) :=
    @NumberType.Denotes.minus _ "002147483649" (by decide) ⟨by decide, by decide⟩
  have hzero : NumberType.int32.Denotes "-000" 0 :=
    @NumberType.Denotes.minus _ "000" (by decide) ⟨by decide, by decide⟩
  have htwenty : NumberType.int32.Denotes "020" 20 :=
    @NumberType.Denotes.digits _ "020" ⟨by decide, by decide⟩
  obtain ⟨-, -, hout⟩ := read_numeral hfits hlow
  obtain ⟨shownLow, hreadLow, hwritten, -⟩ := hout (by decide)
  obtain ⟨-, -, hout⟩ := read_numeral hfits hzero
  obtain ⟨shownZero, hreadZero, -, hcanonical⟩ := hout (by decide)
  have hplain : shownZero = "0" := isCanonical_iff.mp (hcanonical (by decide))
  refine ⟨_, hfits, ⟨hlow, ?_⟩, ⟨hzero, ?_⟩, htwenty, ?_⟩
  · rw [hreadLow, hwritten (by decide)]
  · rw [hreadZero, hplain]
  · exact ⟨by decide, (read_numeral hfits htwenty).2.1 _⟩

end Limit

end DiceBot
