import DiceBot.Proofs.TermReading
import DiceBot.RollReading
import Mathlib.Data.List.Forall2

/-!
# What every expression is read as

A text either expresses terms or it does not, and the terms decide what it is read as.
Their number is looked at first, then their numbers one by one as they are written, and
last whether there are any dice.
-/
namespace DiceBot

namespace Term

/-- The numbers of a term, each with its limit, in the order in which they are checked. -/
def quantities : Term → List (Limit × Int)
  | .dice t => [(.dice, decimal t.count), (.sides, decimal t.sides)]
  | .modifier negative magnitude => [(.modifier, signedValue negative (decimal magnitude))]

def dice? : Term → Option DiceTerm
  | .dice t => some t
  | .modifier .. => none

def amount? : Term → Option Int
  | .dice _ => none
  | .modifier negative magnitude => some (signedValue negative (decimal magnitude))

end Term

def firstRefused? (quantities : List (Limit × Int)) : Option (Limit × Int) :=
  quantities.find? fun q => ¬ q.1.Admits q.2

structure Die.IsOf (d : Die) (t : DiceTerm) : Prop where
  count : d.count = decimal t.count
  sides : d.sides = decimal t.sides
  negative : d.negative = t.negative

/-- The roll has the dice and the modifiers of the terms, in the order in which they are
written. -/
structure Roll.IsOf (r : Roll) (terms : List Term) : Prop where
  dice : List.Forall₂ Die.IsOf r.dice (terms.filterMap Term.dice?)
  modifiers : r.modifiers = terms.filterMap Term.amount?

/-- The outcome of reading an expression is the one that the terms it expresses call for. -/
structure ReadsAs (expression : String) (mode : Mode) (outcome : Except Error Roll) : Prop where
  unreadable : (∀ terms, ¬ Expresses expression terms) →
    ∃ span fault, outcome = .error (.invalidSyntax expression span fault)
  tooMany : ∀ terms, Expresses expression terms → maxParts < terms.length →
    outcome = .error (.tooManyParts terms.length maxParts)
  refused : ∀ terms, Expresses expression terms → terms.length ≤ maxParts →
    ∀ limit n, firstRefused? (terms.flatMap Term.quantities) = some (limit, n) →
      ∃ value, outcome = .error (.outOfRange limit value)
  noDice : ∀ terms, Expresses expression terms → terms.length ≤ maxParts →
    firstRefused? (terms.flatMap Term.quantities) = none → terms.filterMap Term.dice? = [] →
      outcome = .error (.ofWhole expression .noDice)
  read : ∀ terms, Expresses expression terms → terms.length ≤ maxParts →
    firstRefused? (terms.flatMap Term.quantities) = none → terms.filterMap Term.dice? ≠ [] →
      ∃ r, outcome = .ok r ∧ r.IsOf terms ∧ r.mode = mode

theorem firstRefused?_eq_none {quantities : List (Limit × Int)} :
    firstRefused? quantities = none ↔ ∀ q ∈ quantities, q.1.Admits q.2 := by
  simp [firstRefused?, List.find?_eq_none]

theorem firstRefused?_append (before after : List (Limit × Int)) :
    firstRefused? (before ++ after) = (firstRefused? before).or (firstRefused? after) :=
  List.find?_append

namespace Die

theorem ofTerm_admitted {t : DiceTerm} (ht : t.HasDigits)
    (hc : Limit.dice.Admits (decimal t.count)) (hs : Limit.sides.Admits (decimal t.sides)) :
    ∃ d, ofTerm t = .ok d ∧ d.IsOf t := by
  have hcount := Limit.read_admitted (NumberType.value?_digits .uint8 ht.1) (by decide) hc
  have hsides := Limit.read_admitted (NumberType.value?_digits .uint16 ht.2) (by decide) hs
  refine ⟨⟨decimal t.count, decimal t.sides, t.negative, hc, hs⟩, ?_, ⟨rfl, rfl, rfl⟩⟩
  simp only [ofTerm, hcount, hsides, ok_bind]
  rfl

theorem ofTerm_refused {t : DiceTerm} (ht : t.HasDigits) {limit : Limit} {n : Int}
    (hq : firstRefused? (Term.dice t).quantities = some (limit, n)) :
    ∃ value, ofTerm t = .error (.outOfRange limit value) := by
  by_cases hc : Limit.dice.Admits (decimal t.count)
  · obtain ⟨hs, rfl, -⟩ : ¬ Limit.sides.Admits (decimal t.sides) ∧ Limit.sides = limit ∧ _ = n := by
      simpa [firstRefused?, Term.quantities, hc] using hq
    have hcount := Limit.read_admitted (NumberType.value?_digits .uint8 ht.1) (by decide) hc
    have hsides := Limit.read_refused (NumberType.value?_digits .uint16 ht.2) hs
    exact ⟨_, by simp only [ofTerm, hcount, hsides, ok_bind, error_bind]; rfl⟩
  · obtain ⟨rfl, -⟩ : Limit.dice = limit ∧ _ = n := by
      simpa [firstRefused?, Term.quantities, hc] using hq
    have hcount := Limit.read_refused (NumberType.value?_digits .uint8 ht.1) hc
    exact ⟨_, by rw [ofTerm, hcount, error_bind]⟩

end Die

namespace Part

def IsOf : Part → Term → Prop
  | .die d, .dice t => d.IsOf t
  | .modifier amount _, .modifier negative magnitude =>
      amount = signedValue negative (decimal magnitude)
  | _, _ => False

theorem ofTerm_admitted {t : Term} (ht : t.HasDigits) (hq : firstRefused? t.quantities = none) :
    ∃ p, ofTerm t = .ok p ∧ p.IsOf t := by
  rw [firstRefused?_eq_none] at hq
  cases t with
  | dice t =>
    have hc := hq (.dice, decimal t.count) (by simp [Term.quantities])
    have hs := hq (.sides, decimal t.sides) (by simp [Term.quantities])
    obtain ⟨d, hd, hdt⟩ := Die.ofTerm_admitted ht hc hs
    exact ⟨.die d, by rw [ofTerm, hd, ok_bind]; rfl, hdt⟩
  | modifier negative magnitude =>
    have ha : Limit.modifier.Admits (signedValue negative (decimal magnitude)) :=
      hq (.modifier, signedValue negative (decimal magnitude)) (by simp [Term.quantities])
    have hread := Limit.read_admitted (NumberType.value?_signed negative ht) (by decide) ha
    refine ⟨.modifier (signedValue negative (decimal magnitude)) ha, ?_, rfl⟩
    rw [ofTerm, hread, ok_bind]
    rfl

private theorem ofTerm_refused {t : Term} (ht : t.HasDigits) {limit : Limit} {n : Int}
    (hq : firstRefused? t.quantities = some (limit, n)) :
    ∃ value, ofTerm t = .error (.outOfRange limit value) := by
  cases t with
  | dice t =>
    obtain ⟨value, hvalue⟩ := Die.ofTerm_refused ht hq
    exact ⟨value, by rw [ofTerm, hvalue, error_bind]⟩
  | modifier negative magnitude =>
    obtain ⟨ha, rfl, -⟩ : ¬ Limit.modifier.Admits (signedValue negative (decimal magnitude)) ∧
        Limit.modifier = limit ∧ _ = n := by
      simpa [firstRefused?, Term.quantities] using hq
    exact ⟨_, by rw [ofTerm, Limit.read_refused (NumberType.value?_signed negative ht) ha,
      error_bind]⟩

variable {terms : List Term}

theorem ofTerms_admitted (hd : ∀ t ∈ terms, t.HasDigits)
    (hq : firstRefused? (terms.flatMap Term.quantities) = none) :
    ∃ parts, ofTerms terms = .ok parts ∧ List.Forall₂ IsOf parts.val terms := by
  induction terms with
  | nil => exact ⟨⟨[], rfl⟩, rfl, .nil⟩
  | cons t later ih =>
    rw [List.flatMap_cons, firstRefused?_append, Option.or_eq_none_iff] at hq
    rw [List.forall_mem_cons] at hd
    obtain ⟨p, hp, hpt⟩ := ofTerm_admitted hd.1 hq.1
    obtain ⟨parts, hparts, hall⟩ := ih hd.2 hq.2
    refine ⟨⟨p :: parts.val, congrArg (· + 1) parts.property⟩, ?_, .cons hpt hall⟩
    rw [ofTerms, hp, ok_bind, hparts]
    rfl

theorem ofTerms_refused (hd : ∀ t ∈ terms, t.HasDigits) {limit : Limit} {n : Int}
    (hq : firstRefused? (terms.flatMap Term.quantities) = some (limit, n)) :
    ∃ value, ofTerms terms = .error (.outOfRange limit value) := by
  induction terms with
  | nil => cases hq
  | cons t later ih =>
    rw [List.flatMap_cons, firstRefused?_append, Option.or_eq_some_iff] at hq
    rw [List.forall_mem_cons] at hd
    rw [ofTerms]
    obtain hq | ⟨hnone, hq⟩ := hq
    · obtain ⟨value, hvalue⟩ := ofTerm_refused hd.1 hq
      exact ⟨value, by rw [hvalue, error_bind]⟩
    · obtain ⟨p, hp, -⟩ := ofTerm_admitted hd.1 hnone
      obtain ⟨value, hvalue⟩ := ih hd.2 hq
      exact ⟨value, by rw [hp, ok_bind, hvalue, error_bind]⟩

/-- Terms that are read as parts are all within their limits, and the parts are theirs. -/
theorem of_ofTerms {parts : PartsOf terms} (hd : ∀ t ∈ terms, t.HasDigits)
    (h : ofTerms terms = .ok parts) :
    firstRefused? (terms.flatMap Term.quantities) = none ∧ List.Forall₂ IsOf parts.val terms := by
  cases hq : firstRefused? (terms.flatMap Term.quantities) with
  | some q =>
    obtain ⟨value, hvalue⟩ := ofTerms_refused hd hq
    rw [h] at hvalue
    cases hvalue
  | none =>
    obtain ⟨parts', hparts', hall⟩ := ofTerms_admitted hd hq
    rw [h] at hparts'
    cases hparts'
    exact ⟨rfl, hall⟩

theorem ofTerms_failsWith {P : Error → Prop} (h : ∀ t ∈ terms, FailsWith P (ofTerm t)) :
    FailsWith P (ofTerms terms) := by
  induction terms with
  | nil => exact .ok _
  | cons t later ih =>
    rw [List.forall_mem_cons] at h
    exact h.1.bind fun p _ => (ih h.2).bind fun parts _ => .ok _

variable {parts : List Part}

theorem filterMap_die? (h : List.Forall₂ IsOf parts terms) :
    List.Forall₂ Die.IsOf (parts.filterMap die?) (terms.filterMap Term.dice?) := by
  induction h with
  | nil => exact .nil
  | @cons p t parts terms hpt hall ih =>
    cases p with
    | die d =>
      cases t with
      | dice t => exact .cons hpt ih
      | modifier negative magnitude => cases hpt
    | modifier amount hamount =>
      cases t with
      | dice t => cases hpt
      | modifier negative magnitude => exact ih

theorem filterMap_modifier? (h : List.Forall₂ IsOf parts terms) :
    parts.filterMap modifier? = terms.filterMap Term.amount? := by
  induction h with
  | nil => rfl
  | @cons p t parts terms hpt hall ih =>
    cases p with
    | die d =>
      cases t with
      | dice t => exact ih
      | modifier negative magnitude => cases hpt
    | modifier amount hamount =>
      cases t with
      | dice t => cases hpt
      | modifier negative magnitude => exact congrArg₂ List.cons hpt ih

end Part

theorem Term.length_filterMap (terms : List Term) :
    (terms.filterMap dice?).length + (terms.filterMap amount?).length = terms.length :=
  length_filterMap_add (fun t => by cases t <;> rfl) terms

namespace Roll

section PartsRead

variable (expression : String) {terms : List Term} {parts : PartsOf terms}
  (hall : List.Forall₂ Part.IsOf parts.val terms) (hlen : terms.length ≤ maxParts) (mode : Mode)

include hall

/-- The parts of terms make a roll of the terms, unless there are no dice. -/
theorem ofPartsRead_eq_ok (hdice : terms.filterMap Term.dice? ≠ []) :
    ∃ r, ofPartsRead expression parts hlen mode = .ok r ∧ r.IsOf terms ∧ r.mode = mode := by
  have hd := Part.filterMap_die? hall
  have hne : parts.val.filterMap Part.die? ≠ [] := by
    intro h
    rw [h, List.forall₂_nil_left_iff] at hd
    exact hdice hd
  exact ⟨_, by rw [ofPartsRead, dif_neg hne], ⟨hd, Part.filterMap_modifier? hall⟩, rfl⟩

theorem ofPartsRead_noDice (hdice : terms.filterMap Term.dice? = []) :
    ofPartsRead expression parts hlen mode = .error (.ofWhole expression .noDice) := by
  have hd := Part.filterMap_die? hall
  rw [hdice, List.forall₂_nil_right_iff] at hd
  rw [ofPartsRead, dif_pos hd]

end PartsRead

theorem ofPartsRead_failsWith {P : Error → Prop} {expression : String}
    (h : P (.ofWhole expression .noDice)) {terms : List Term} (parts : PartsOf terms)
    (hlen : terms.length ≤ maxParts) (mode : Mode) :
    FailsWith P (ofPartsRead expression parts hlen mode) := by
  rw [ofPartsRead]
  split
  · exact .error h
  · exact .ok _

/-- The mode of a roll is only noted when its expression is read. -/
theorem ofText_withMode (expression : String) (mode mode' : Mode) :
    ofText expression mode = (ofText expression mode').map (·.withMode mode) := by
  have hread {terms : List Term} (parts : PartsOf terms) (hlen : terms.length ≤ maxParts) :
      ofPartsRead expression parts hlen mode =
        (ofPartsRead expression parts hlen mode').map (·.withMode mode) := by
    simp only [ofPartsRead]
    split <;> rfl
  simp only [ofText]
  cases (termsOfExpression expression).mapError (Misreading.toError expression) with
  | error e => rfl
  | ok terms =>
    simp only [ok_bind]
    split
    next hlen =>
      cases Part.ofTerms terms with
      | error e => rfl
      | ok parts => exact hread parts hlen
    next => rfl

theorem ofText_eq_ok_withMode {expression : String} {mode' : Mode} {r : Roll}
    (h : ofText expression mode' = .ok r) (mode : Mode) :
    ofText expression mode = .ok (r.withMode mode) := by
  rw [ofText_withMode expression mode mode', h]
  rfl

theorem mode_of_ofText {expression : String} {mode : Mode} {r : Roll}
    (h : ofText expression mode = .ok r) : r.mode = mode := by
  have hself := ofText_eq_ok_withMode h mode
  rw [h] at hself
  exact congrArg Roll.mode (Except.ok.inj hself)

theorem ofText_of_expresses {expression : String} {terms : List Term}
    (h : Expresses expression terms) (hlen : terms.length ≤ maxParts) (mode : Mode) :
    ofText expression mode =
      Part.ofTerms terms >>= (ofPartsRead expression · hlen mode) := by
  rw [ofText, termsOfExpression_eq_ok.mpr h, mapError_ok, ok_bind, dif_pos hlen]

end Roll

theorem Expresses.hasDigits {expression : String} {terms : List Term}
    (h : Expresses expression terms) : ∀ t ∈ terms, t.HasDigits := (expresses_iff.mp h).2.1

/-- A roll that is read from an expression is that of the terms which are expressed. -/
theorem Roll.exists_terms_of_ofText {expression : String} {mode : Mode} {r : Roll}
    (h : ofText expression mode = .ok r) : ∃ terms, Expresses expression terms ∧ r.IsOf terms := by
  obtain ⟨terms, hterms, hrest⟩ := bind_eq_ok.mp h
  have hexpresses := termsOfExpression_eq_ok.mp (mapError_eq_ok.mp hterms)
  refine ⟨terms, hexpresses, ?_⟩
  split at hrest
  next hlen =>
    obtain ⟨parts, hparts, hroll⟩ := bind_eq_ok.mp hrest
    obtain ⟨hq, hall⟩ := Part.of_ofTerms hexpresses.hasDigits hparts
    by_cases hdice : terms.filterMap Term.dice? = []
    · rw [ofPartsRead_noDice expression hall hlen mode hdice] at hroll
      cases hroll
    · obtain ⟨r', hr', hof, -⟩ := ofPartsRead_eq_ok expression hall hlen mode hdice
      rw [hroll] at hr'
      cases hr'
      exact hof
  next => cases hrest

/-- Every text has the outcome of just one of these cases, and the terms that it expresses
decide which. -/
theorem ofText_readsAs (expression : String) (mode : Mode) :
    ReadsAs expression mode (Roll.ofText expression mode) where
  unreadable h := by
    cases hterms : termsOfExpression expression with
    | ok terms => exact absurd (termsOfExpression_eq_ok.mp hterms) (h terms)
    | error m => exact ⟨m.span, m.fault, by rw [Roll.ofText, hterms]; rfl⟩
  tooMany terms h hlen := by
    rw [Roll.ofText, termsOfExpression_eq_ok.mpr h, mapError_ok, ok_bind,
      dif_neg (Nat.not_le.mpr hlen)]
  refused terms h hlen limit n hq := by
    obtain ⟨value, hvalue⟩ := Part.ofTerms_refused h.hasDigits hq
    exact ⟨value, by rw [Roll.ofText_of_expresses h hlen, hvalue, error_bind]⟩
  noDice terms h hlen hq hdice := by
    obtain ⟨parts, hparts, hall⟩ := Part.ofTerms_admitted h.hasDigits hq
    rw [Roll.ofText_of_expresses h hlen, hparts, ok_bind]
    exact Roll.ofPartsRead_noDice expression hall hlen mode hdice
  read terms h hlen hq hdice := by
    obtain ⟨parts, hparts, hall⟩ := Part.ofTerms_admitted h.hasDigits hq
    rw [Roll.ofText_of_expresses h hlen, hparts, ok_bind]
    exact Roll.ofPartsRead_eq_ok expression hall hlen mode hdice

end DiceBot
