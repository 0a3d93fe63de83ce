import DiceBot.Proofs.CommandGrammar
import DiceBot.Proofs.NotationGrammar
import DiceBot.Proofs.WrittenNumbers
import DiceBot.SavedRolls

/-!
# What errors say of numbers

An error that refuses a number shows it, as a numeral, and the number that the numeral denotes
is really outside of the limit in the error. Nothing that is read as a numeral turns out to be
none, because the grammars of dice and of arguments let only digits through. So it is for every
way to ask for dice, rolls and commands.
-/
namespace DiceBot

inductive Limit.IsEnforced : Limit → Prop
  | dice : IsEnforced .dice
  | sides : IsEnforced .sides
  | modifier : IsEnforced .modifier
  | repeats : IsEnforced .repeats
  | totalRolls (most : Nat) : IsEnforced (.totalRolls most)

/-- An error about a text, or one that is right about a number or about how many parts there
are. No other error is sound. -/
inductive Error.Sound : Error → Prop
  | invalidSyntax (input : String) (span : Span) (fault : Fault) :
      Sound (.invalidSyntax input span fault)
  | outOfRange {limit : Limit} {value : String} (henforced : limit.IsEnforced)
      (hnumeral : ∃ n, IsNumeral value n) (hout : ∀ n, IsNumeral value n → ¬ limit.Admits n) :
      Sound (.outOfRange limit value)
  | tooManyParts {count : Nat} (h : 25 < count) : Sound (.tooManyParts count 25)

theorem Error.sound_outOfRange {limit : Limit} {value : String} {n : Int}
    (henforced : limit.IsEnforced) (hvalue : IsNumeral value n) (hout : ¬ limit.Admits n) :
    (Error.outOfRange limit value).Sound :=
  .outOfRange henforced ⟨n, hvalue⟩ fun _ hvalue' => hvalue'.unique hvalue ▸ hout

namespace Limit

variable {l : Limit} {t : NumberType} {text : String} {n : Int}

theorem check_sound (hl : l.IsEnforced) (n : Int) : FailsWith Error.Sound (l.check n) := by
  by_cases h : l.Admits n
  · rw [check_admitted h]
    exact .ok _
  · rw [check_refused h]
    exact .error (Error.sound_outOfRange hl (isNumeral_toString n) h)

/-- A numeral that is refused is shown as it is, or as its number is written. -/
theorem read_sound (hl : l.IsEnforced) (hf : l.Fits t) (hv : t.value? text.toList = some n)
    (hn : IsNumeral text n) : FailsWith Error.Sound (l.read t text) := by
  by_cases h : l.Admits n
  · rw [read_admitted hv hf h]
    exact .ok _
  · rw [read_refused hv h]
    refine .error (Error.sound_outOfRange hl ?_ h)
    split
    · exact isNumeral_toString n
    · exact hn

private theorem read_digits_sound (hl : l.IsEnforced) (hf : l.Fits t) (hd : IsDigits text) :
    FailsWith Error.Sound (l.read t text) :=
  read_sound hl hf (t.value?_digits hd) (isNumeral_digits hd)

end Limit

private theorem readDice_hasDigits {cs : List Char} {t : DiceTerm} (h : readDice cs = .ok t) :
    t.HasDigits := by
  cases cs with
  | nil => cases h
  | cons c cs =>
    rw [readDice] at h
    split at h
    · exact (readDiceFrom_signed.mp h).2.1
    · exact (readDiceFrom_signed.mp h).2.1

namespace Die

theorem ofCounts_sound (count sides : Nat) (negative : Bool) :
    FailsWith Error.Sound (ofCounts count sides negative) :=
  (Limit.check_sound .dice count).bind fun _ _ =>
    (Limit.check_sound .sides sides).bind fun _ _ => .ok _

theorem ofTerm_sound {t : DiceTerm} (ht : t.HasDigits) : FailsWith Error.Sound (ofTerm t) :=
  (Limit.read_digits_sound .dice (by decide) ht.1).bind fun _ _ =>
    (Limit.read_digits_sound .sides (by decide) ht.2).bind fun _ _ => .ok _

theorem ofText_sound (text : String) : FailsWith Error.Sound (ofText text) := by
  rw [ofText, DiceTerm.ofText]
  cases hread : readDice text.toList with
  | ok t => exact ofTerm_sound (readDice_hasDigits hread)
  | error stop => exact .error (.invalidSyntax ..)

end Die

private theorem Part.ofTerm_sound {t : Term} (ht : t.HasDigits) :
    FailsWith Error.Sound (ofTerm t) := by
  cases t with
  | dice t => exact (Die.ofTerm_sound ht).bind fun d _ => .ok (Part.die d)
  | modifier negative magnitude =>
    have hvalue := NumberType.value?_signed negative ht
    have hnumeral : IsNumeral ((if negative then "-" else "") ++ magnitude) _ :=
      ⟨negative, magnitude, ht, rfl, rfl⟩
    exact (Limit.read_sound .modifier (by decide) hvalue hnumeral).bind fun _ _ => .ok _

namespace Roll

theorem ofParts_sound (dice : List Die) (modifiers : List Int) (mode : Mode) :
    FailsWith Error.Sound (ofParts dice modifiers mode) := by
  rw [ofParts]
  split
  · exact .error (.invalidSyntax ..)
  · split
    · split
      next m hm =>
        have hout : ¬ Limit.modifier.Admits m := by simpa using List.find?_some hm
        exact .error (Error.sound_outOfRange .modifier (isNumeral_toString m) hout)
      · exact .ok _
    next hparts => exact .error (.tooManyParts (Nat.lt_of_not_le hparts))

theorem ofText_sound (expression : String) (mode : Mode) :
    FailsWith Error.Sound (ofText expression mode) := by
  rw [ofText]
  cases hterms : termsOfExpression expression with
  | error m => exact .error (.invalidSyntax ..)
  | ok terms =>
    have hdigits := (termsOfExpression_eq_ok.mp hterms).hasDigits
    rw [mapError_ok, ok_bind]
    split
    · exact (Part.ofTerms_failsWith fun t ht => Part.ofTerm_sound (hdigits t ht)).bind
        fun parts _ => ofPartsRead_failsWith (.invalidSyntax ..) parts _ mode
    next hlen => exact .error (.tooManyParts (Nat.lt_of_not_le hlen))

end Roll

namespace RollCommand

private theorem breaks_sound {before : List String} {arg : String} {e : Error}
    (h : Breaks before arg e) : e.Sound := by
  cases h with
  | unreadable hroll hread => exact Roll.ofText_sound arg .normal _ hread
  | early => exact .invalidSyntax ..
  | bothModes => exact .invalidSyntax ..
  | @repeats digits hb hd harg hn =>
    have hout : ¬ Limit.repeats.Admits (decimal digits) := by
      simp only [Limit.Admits, Limit.repeats]
      omega
    refine Error.sound_outOfRange .repeats ?_ hout
    split
    next hzero => exact hzero ▸ isNumeral_toString 0
    · exact isNumeral_digits hd
  | unknown => exact .invalidSyntax ..

theorem ofArgs_sound (args : List String) : FailsWith Error.Sound (ofArgs args) := by
  intro e he
  by_cases hne : args = []
  · rw [hne] at he
    cases he
    exact .invalidSyntax ..
  · obtain ⟨first, arg, later, -, hbreak⟩ := ((ofArgs_eq_error hne e).mp he).exists_breaks
    exact breaks_sound hbreak

theorem ensureMaxRolls_sound (c : RollCommand) (most : Nat) :
    FailsWith Error.Sound (c.ensureMaxRolls most) :=
  (Limit.check_sound (.totalRolls most) c.totalRolls).bind fun _ _ => .ok ()

end RollCommand

theorem SavedRolls.save_sound (s : SavedRolls) (owner : Owner) (name : String)
    (args : List String) : FailsWith Error.Sound (s.save owner name args) :=
  (RollCommand.ofArgs_sound args).bind fun _ _ => .ok _

/-- Whatever is asked for, an error that refuses a number shows a numeral of a number outside of
its limit, one that refuses parts counts more than the 25 allowed, and no numeral is refused for
being none. -/
theorem errors_sound :
    (∀ count sides negative, FailsWith Error.Sound (Die.ofCounts count sides negative)) ∧
    (∀ text, FailsWith Error.Sound (Die.ofText text)) ∧
    (∀ expression mode, FailsWith Error.Sound (Roll.ofText expression mode)) ∧
    (∀ dice modifiers mode, FailsWith Error.Sound (Roll.ofParts dice modifiers mode)) ∧
    (∀ args, FailsWith Error.Sound (RollCommand.ofArgs args)) ∧
    (∀ (c : RollCommand) most, FailsWith Error.Sound (c.ensureMaxRolls most)) ∧
    ∀ (s : SavedRolls) owner name args, FailsWith Error.Sound (s.save owner name args) :=
  ⟨Die.ofCounts_sound, Die.ofText_sound, Roll.ofText_sound, Roll.ofParts_sound,
    RollCommand.ofArgs_sound, RollCommand.ensureMaxRolls_sound, SavedRolls.save_sound⟩

/-- A number that its type does not hold is shown as it was written, another one without its
leading zeros. -/
theorem errors_sound_zeros :
    (Die.ofText "0256d6" = .error (.outOfRange .dice "0256") ∧
      (Error.outOfRange .dice "0256").Sound) ∧
    RollCommand.ofArgs ["1d20", "x000"] = .error (.outOfRange .repeats "0") ∧
      (Error.outOfRange .repeats "0").Sound := by
  have hdie : Die.ofText "0256d6" = .error (.outOfRange .dice "0256") := by
    decide +kernel
  have hcommand : RollCommand.ofArgs ["1d20", "x000"] = .error (.outOfRange .repeats "0") := by
    decide +kernel
  exact ⟨⟨hdie, errors_sound.2.1 _ _ hdie⟩, hcommand, errors_sound.2.2.2.2.1 _ _ hcommand⟩

end DiceBot
