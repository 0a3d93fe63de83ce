import DiceBot.Proofs.ShownDice
import DiceBot.RollReading
import Mathlib.Algebra.BigOperators.Ring.Finset
import Mathlib.Algebra.Order.BigOperators.Group.List
import Mathlib.Algebra.Order.Ring.Nat

/-!
# Totals in words of 32 bits

A roll is small enough to be added up in signed words of 32 bits. Terms of dice and modifiers are
added one after the other, from zero, and no partial sum leaves the range of a word. So the words
that a roll is decided by and that it comes to are the exact totals, which lie between the least
and the greatest sum that its dice can show.
-/
namespace DiceBot

/-- The sum of two words, if it does not overflow. -/
def addWords? (a b : Int32) : Option Int32 :=
  if NumberType.int32.Holds (a.toInt + b.toInt) then some (a + b) else none

def negWord? (a : Int32) : Option Int32 :=
  if NumberType.int32.Holds (-a.toInt) then some (-a) else none

/-- The sum of two words, or the end of their range that it is beyond. -/
def addSaturating (a b : Int32) : Int32 := .ofIntClamp (a.toInt + b.toInt)

/-- The sum of words from the left, if no partial sum overflows. -/
def sumWords? (words : List Int32) : Option Int32 := words.foldlM addWords? 0

namespace DieOutcome

def subtotalWord? (o : DieOutcome) : Option Int32 := sumWords? (o.values.map Int32.ofNat)

def signedWord? (o : DieOutcome) : Option Int32 := do
  let subtotal ← o.subtotalWord?
  if o.die.negative then negWord? subtotal else some subtotal

end DieOutcome

def diceWord? (outcomes : List DieOutcome) : Option Int32 := do
  sumWords? (← outcomes.mapM DieOutcome.signedWord?)

def modifierWord? (modifiers : List Int) : Option Int32 := sumWords? (modifiers.map Int32.ofInt)

def totalWord? (outcomes : List DieOutcome) (modifiers : List Int) : Option Int32 := do
  let dice ← diceWord? outcomes
  let modifier ← modifierWord? modifiers
  some (addSaturating dice modifier)

namespace Roll

def keepByWords? (r : Roll) (kept other : List DieOutcome) : Option RollOutcome := do
  let losing ← totalWord? other r.modifiers
  some ⟨kept, r.modifiers, r.mode, some losing.toInt⟩

def chooseByWords? (r : Roll) (first second : List DieOutcome) : Option RollOutcome := do
  let firstTotal ← diceWord? first
  let secondTotal ← diceWord? second
  if r.mode.Prefers secondTotal.toInt firstTotal.toInt then r.keepByWords? second first
  else r.keepByWords? first second

/-- Makes the roll in words; nothing comes of it if one of them overflows. -/
def evaluateByWords {ρ ε : Type} [Source ρ ε] (r : Roll) : EStateM ε ρ (Option RollOutcome) := do
  let first ← r.rollDice
  if r.mode = .normal then
    pure (some ⟨first, r.modifiers, r.mode, none⟩)
  else
    let second ← r.rollDice
    pure (r.chooseByWords? first second)

end Roll

/-- The computation does not overflow, and its word is the integer. -/
def ComesTo (word : Option Int32) (n : Int) : Prop := word.map Int32.toInt = some n

theorem comesTo_iff {word : Option Int32} {n : Int} :
    ComesTo word n ↔ ∃ w, word = some w ∧ w.toInt = n := Option.map_eq_some_iff

theorem holds_of_natAbs_le {n : Int} (h : n.natAbs ≤ 2147483647) : NumberType.int32.Holds n := by
  simp only [NumberType.Holds, NumberType.least, NumberType.greatest]
  omega

theorem toInt_of_holds {n : Int} (h : NumberType.int32.Holds n) : (Int32.ofInt n).toInt = n := by
  obtain ⟨hleast, hgreatest⟩ := h
  simp only [NumberType.least, NumberType.greatest] at hleast hgreatest
  exact Int32.toInt_ofInt_of_le (by omega) (by omega)

private theorem comesTo_addWords {a b : Int32} (h : NumberType.int32.Holds (a.toInt + b.toInt)) :
    ComesTo (addWords? a b) (a.toInt + b.toInt) := by
  have hadd : a + b = Int32.ofInt (a.toInt + b.toInt) := by simp
  rw [addWords?, if_pos h, hadd]
  exact congrArg some (toInt_of_holds h)

private theorem comesTo_negWord {a : Int32} (h : NumberType.int32.Holds (-a.toInt)) :
    ComesTo (negWord? a) (-a.toInt) := by
  have hneg : -a = Int32.ofInt (-a.toInt) := by simp
  rw [negWord?, if_pos h, hneg]
  exact congrArg some (toInt_of_holds h)

private theorem toInt_addSaturating {a b : Int32} (h : NumberType.int32.Holds (a.toInt + b.toInt)) :
    (addSaturating a b).toInt = a.toInt + b.toInt :=
  Int32.toInt_ofIntClamp h.1 h.2

theorem ComesTo.bind {x : Option Int32} {f : Int32 → Option Int32} {n m : Int} (h : ComesTo x n)
    (hf : ∀ w : Int32, w.toInt = n → ComesTo (f w) m) : ComesTo (x >>= f) m := by
  obtain ⟨w, rfl, hw⟩ := comesTo_iff.mp h
  exact hf w hw

private theorem natAbs_sum_le {l : List Int} {most : Nat} (h : ∀ n ∈ l, n.natAbs ≤ most) :
    l.sum.natAbs ≤ l.length * most := by
  induction l with
  | nil => simp
  | cons n l ih =>
    rw [List.forall_mem_cons] at h
    have hrest := ih h.2
    rw [List.sum_cons, List.length_cons, Nat.succ_mul]
    omega

/-- Words do not overflow in their sum if they are few and small. -/
theorem comesTo_sumWords {words : List Int32} {most : Nat}
    (h : ∀ w ∈ words, w.toInt.natAbs ≤ most) (hfew : words.length * most ≤ 2147483647) :
    ComesTo (sumWords? words) (words.map Int32.toInt).sum := by
  suffices hfrom : ∀ held : Int32, held.toInt.natAbs + words.length * most ≤ 2147483647 →
      ComesTo (words.foldlM addWords? held) (held.toInt + (words.map Int32.toInt).sum) by
    simpa [sumWords?] using hfrom 0 (by simpa using hfew)
  clear hfew
  induction words with
  | nil => exact fun held _ => by simp [ComesTo]
  | cons w words ih =>
    intro held hheld
    rw [List.forall_mem_cons] at h
    rw [List.length_cons, Nat.succ_mul] at hheld
    have hholds : NumberType.int32.Holds (held.toInt + w.toInt) :=
      holds_of_natAbs_le (by omega)
    rw [List.foldlM_cons, List.map_cons, List.sum_cons, ← Int.add_assoc]
    refine (comesTo_addWords hholds).bind fun next hnext => ?_
    rw [← hnext]
    exact ih h.2 next (by omega)

/-- The same for words that are made of integers. -/
theorem comesTo_sumWords_ofInt {ns : List Int} {most : Nat} (h : ∀ n ∈ ns, n.natAbs ≤ most)
    (hmost : most ≤ 2147483647) (hfew : ns.length * most ≤ 2147483647) :
    ComesTo (sumWords? (ns.map Int32.ofInt)) ns.sum := by
  have hword (n : Int) (hn : n ∈ ns) : (Int32.ofInt n).toInt = n :=
    toInt_of_holds (holds_of_natAbs_le ((h n hn).trans hmost))
  have hwords : (ns.map Int32.ofInt).map Int32.toInt = ns := by
    rw [List.map_map]
    exact (List.map_congr_left hword).trans (List.map_id ns)
  have hsmall : ∀ w ∈ ns.map Int32.ofInt, w.toInt.natAbs ≤ most := by
    intro w hw
    obtain ⟨n, hn, rfl⟩ := List.mem_map.mp hw
    rw [hword n hn]
    exact h n hn
  have hcomes := comesTo_sumWords hsmall (by rwa [List.length_map])
  rwa [hwords] at hcomes

namespace DieOutcome.IsRolled

variable {o : DieOutcome}

private theorem count_le_sum (h : o.IsRolled) : o.die.count ≤ o.values.sum := by
  rw [← h.count]
  exact List.length_le_sum_of_one_le _ fun value hvalue => (h.faces value hvalue).1

theorem sum_le (h : o.IsRolled) : o.values.sum ≤ o.die.count * o.die.sides := by
  rw [← h.count]
  exact List.sum_le_card_nsmul _ _ fun value hvalue => (h.faces value hvalue).2

theorem sum_le_100000 (h : o.IsRolled) : o.values.sum ≤ 100000 := by
  have hcount : o.die.count ≤ 100 := o.die.count_bounds.2
  have hsides : o.die.sides ≤ 1000 := o.die.sides_bounds.2
  exact h.sum_le.trans (Nat.mul_le_mul hcount hsides)

theorem comesTo_subtotal (h : o.IsRolled) : ComesTo o.subtotalWord? o.values.sum := by
  have hwords : o.values.map Int32.ofNat =
      (o.values.map (Nat.cast : Nat → Int)).map Int32.ofInt := by
    rw [List.map_map]
    exact List.map_congr_left fun value _ => Int32.ofInt_eq_ofNat.symm
  have hcount : o.die.count ≤ 100 := o.die.count_bounds.2
  rw [DieOutcome.subtotalWord?, hwords, Nat.cast_list_sum]
  apply @comesTo_sumWords_ofInt _ 1000
  · intro n hn
    obtain ⟨value, hvalue, rfl⟩ := List.mem_map.mp hn
    have hsides : o.die.sides ≤ 1000 := o.die.sides_bounds.2
    have hface := (h.faces value hvalue).2
    omega
  · decide
  · rw [List.length_map, h.count]
    omega

private theorem natAbs_signedTotal_le (h : o.IsRolled) : o.signedTotal.natAbs ≤ 100000 := by
  have hsum := h.sum_le_100000
  have hsubtotal : o.subtotal = o.values.sum := rfl
  rw [DieOutcome.signedTotal]
  split <;> omega

theorem comesTo_signed (h : o.IsRolled) : ComesTo o.signedWord? o.signedTotal := by
  have hsum := h.sum_le_100000
  have hsubtotal : o.subtotal = o.values.sum := rfl
  rw [DieOutcome.signedWord?, DieOutcome.signedTotal, hsubtotal]
  refine h.comesTo_subtotal.bind fun w hw => ?_
  split
  · rw [← hw]
    exact comesTo_negWord (holds_of_natAbs_le (by omega))
  · exact comesTo_iff.mpr ⟨w, rfl, hw⟩

end DieOutcome.IsRolled

private theorem exists_mapM_words {α : Type} {f : α → Option Int32} {g : α → Int} {l : List α}
    (h : ∀ a ∈ l, ComesTo (f a) (g a)) :
    ∃ words, l.mapM f = some words ∧ words.map Int32.toInt = l.map g := by
  induction l with
  | nil => exact ⟨[], rfl, rfl⟩
  | cons a l ih =>
    rw [List.forall_mem_cons] at h
    obtain ⟨w, hw, hwa⟩ := comesTo_iff.mp h.1
    obtain ⟨words, hwords, hmap⟩ := ih h.2
    refine ⟨w :: words, ?_, by rw [List.map_cons, List.map_cons, hwa, hmap]⟩
    simp [List.mapM_cons, hw, hwords]

/-- The terms of dice of a roll are few enough for their totals to be added up. -/
theorem comesTo_dice {outcomes : List DieOutcome} (h : ∀ o ∈ outcomes, o.IsRolled)
    (hfew : outcomes.length ≤ maxParts) : ComesTo (diceWord? outcomes) (diceTotal outcomes) := by
  obtain ⟨words, hwords, hmap⟩ := exists_mapM_words fun o ho => (h o ho).comesTo_signed
  have hsmall : ∀ w ∈ words, w.toInt.natAbs ≤ 100000 := by
    intro w hw
    have hmem : w.toInt ∈ outcomes.map DieOutcome.signedTotal := hmap ▸ List.mem_map_of_mem hw
    obtain ⟨o, ho, hsigned⟩ := List.mem_map.mp hmem
    exact hsigned ▸ (h o ho).natAbs_signedTotal_le
  have hlength : words.length = outcomes.length := by simpa using congrArg List.length hmap
  have hcomes := comesTo_sumWords hsmall (by rw [maxParts] at hfew; omega)
  rw [hmap] at hcomes
  rw [diceWord?, hwords]
  exact hcomes

def leastSum (dice : List Die) : Int :=
  ((dice.filter (!·.negative)).map fun d => (d.count : Int)).sum -
    ((dice.filter (·.negative)).map fun d => (d.count * d.sides : Int)).sum

def greatestSum (dice : List Die) : Int :=
  ((dice.filter (!·.negative)).map fun d => (d.count * d.sides : Int)).sum -
    ((dice.filter (·.negative)).map fun d => (d.count : Int)).sum

theorem leastSum_cons (d : Die) (dice : List Die) :
    leastSum (d :: dice) =
      (if d.negative then -(d.count * d.sides : Int) else d.count) + leastSum dice := by
  cases hd : d.negative <;> simp [leastSum, hd] <;> omega

theorem greatestSum_cons (d : Die) (dice : List Die) :
    greatestSum (d :: dice) =
      (if d.negative then -(d.count : Int) else d.count * d.sides) + greatestSum dice := by
  cases hd : d.negative <;> simp [greatestSum, hd] <;> omega

private theorem DieOutcome.IsRolled.signedTotal_between {o : DieOutcome} (h : o.IsRolled) :
    (if o.die.negative then -(o.die.count * o.die.sides : Int) else o.die.count) ≤ o.signedTotal ∧
      o.signedTotal ≤
        if o.die.negative then -(o.die.count : Int) else o.die.count * o.die.sides := by
  have hleast := h.count_le_sum
  have hgreatest : (o.values.sum : Int) ≤ o.die.count * o.die.sides := mod_cast h.sum_le
  have hsubtotal : o.subtotal = o.values.sum := rfl
  rw [DieOutcome.signedTotal]
  split <;> omega

private theorem diceTotal_between {outcomes : List DieOutcome} (h : ∀ o ∈ outcomes, o.IsRolled) :
    leastSum (outcomes.map DieOutcome.die) ≤ diceTotal outcomes ∧
      diceTotal outcomes ≤ greatestSum (outcomes.map DieOutcome.die) := by
  induction outcomes with
  | nil => simp [leastSum, greatestSum, diceTotal]
  | cons o outcomes ih =>
    rw [List.forall_mem_cons] at h
    have hfirst := h.1.signedTotal_between
    have hrest := ih h.2
    have htotal : diceTotal (o :: outcomes) = o.signedTotal + diceTotal outcomes := rfl
    rw [List.map_cons, leastSum_cons, greatestSum_cons, htotal]
    omega

theorem Die.size_le (d : Die) : d.count * d.sides ≤ 100000 := by
  have hcount : d.count ≤ 100 := d.count_bounds.2
  have hsides : d.sides ≤ 1000 := d.sides_bounds.2
  exact Nat.mul_le_mul hcount hsides

private theorem sums_within (dice : List Die) :
    -(dice.length * 100000 : Int) ≤ leastSum dice ∧ greatestSum dice ≤ dice.length * 100000 := by
  induction dice with
  | nil => simp [leastSum, greatestSum]
  | cons d dice ih =>
    have hsize : (d.count * d.sides : Int) ≤ 100000 := mod_cast d.size_le
    have hpositive : 0 ≤ (d.count * d.sides : Int) := mod_cast Nat.zero_le _
    have hcount := d.count_admitted
    simp only [Limit.Admits, Limit.dice] at hcount
    rw [leastSum_cons, greatestSum_cons, List.length_cons]
    split <;> omega

namespace Roll

variable {r : Roll} {set : List DieOutcome}

theorem natAbs_modifiers_le (r : Roll) : ∀ m ∈ r.modifiers, m.natAbs ≤ 1000 := by
  intro m hm
  have hadmitted := r.modifiers_admitted m hm
  simp only [Limit.Admits, Limit.modifier] at hadmitted
  omega

theorem comesTo_modifier (r : Roll) :
    ComesTo (modifierWord? r.modifiers) r.modifierTotal := by
  have hparts := r.parts_le
  rw [maxParts] at hparts
  exact comesTo_sumWords_ofInt r.natAbs_modifiers_le (by decide) (by omega)

theorem Shows.length_eq (h : r.Shows set) : set.length = r.dice.length := by
  rw [← h.dice, List.length_map]

theorem Shows.comesTo_dice (h : r.Shows set) : ComesTo (diceWord? set) (diceTotal set) := by
  have hparts := r.parts_le
  exact DiceBot.comesTo_dice h.rolled (by rw [h.length_eq]; omega)

def leastTotal (r : Roll) : Int := leastSum r.dice + r.modifiers.sum

def greatestTotal (r : Roll) : Int := greatestSum r.dice + r.modifiers.sum

theorem totals_within (r : Roll) : -2500000 ≤ r.leastTotal ∧ r.greatestTotal ≤ 2500000 := by
  have hparts := r.parts_le
  rw [maxParts] at hparts
  have hdice := sums_within r.dice
  have hmodifiers := natAbs_sum_le r.natAbs_modifiers_le
  rw [leastTotal, greatestTotal]
  omega

theorem Shows.sum_between (h : r.Shows set) :
    r.leastTotal ≤ signedSum set + r.modifiers.sum ∧
      signedSum set + r.modifiers.sum ≤ r.greatestTotal := by
  have hdice := diceTotal_between h.rolled
  rw [h.dice, diceTotal_eq_signedSum] at hdice
  rw [leastTotal, greatestTotal]
  omega

theorem Shows.comesTo_total (h : r.Shows set) :
    ComesTo (totalWord? set r.modifiers) (diceTotal set + r.modifierTotal) := by
  have hbetween := h.sum_between
  rw [← diceTotal_eq_signedSum, ← modifierTotal_eq] at hbetween
  have hwithin := r.totals_within
  refine h.comesTo_dice.bind fun dice hdice => r.comesTo_modifier.bind fun modifier hmodifier => ?_
  refine comesTo_iff.mpr ⟨_, rfl, ?_⟩
  rw [← hdice, ← hmodifier]
  exact toInt_addSaturating (holds_of_natAbs_le (by omega))

private theorem keepByWords?_eq {kept other : List DieOutcome} (hother : r.Shows other) :
    r.keepByWords? kept other = some (r.keep kept other) := by
  obtain ⟨losing, hlosing, htotal⟩ := comesTo_iff.mp hother.comesTo_total
  rw [keepByWords?, hlosing, keep, ← htotal]
  rfl

/-- Words decide which dice are kept as the exact totals do. -/
theorem chooseByWords?_eq {first second : List DieOutcome} (hfirst : r.Shows first)
    (hsecond : r.Shows second) : r.chooseByWords? first second = some (r.choose first second) := by
  obtain ⟨firstTotal, hfirstWord, hfirstTotal⟩ := comesTo_iff.mp hfirst.comesTo_dice
  obtain ⟨secondTotal, hsecondWord, hsecondTotal⟩ := comesTo_iff.mp hsecond.comesTo_dice
  simp only [chooseByWords?, choose, hfirstWord, hsecondWord, Option.bind_eq_bind,
    Option.bind_some, hfirstTotal, hsecondTotal, keepByWords?_eq hfirst, keepByWords?_eq hsecond]
  split <;> rfl

/-- Made in words, a roll comes to the same and leaves its source in the same state. -/
theorem evaluateByWords_eq {ρ ε : Type} [Source ρ ε] (r : Roll) (s : ρ) :
    r.evaluateByWords s = (some <$> r.evaluate) s := by
  rw [evaluateByWords, evaluate, map_bind]
  cases hfirst : (r.rollDice : EStateM ε ρ (List DieOutcome)) s with
  | error e s₁ => rw [bind_apply_of_error hfirst, bind_apply_of_error hfirst]
  | ok first s₁ =>
    rw [bind_apply_of_ok hfirst, bind_apply_of_ok hfirst]
    split
    · rw [map_pure]
    · rw [map_bind]
      cases hsecond : (r.rollDice : EStateM ε ρ (List DieOutcome)) s₁ with
      | error e s₂ => rw [bind_apply_of_error hsecond, bind_apply_of_error hsecond]
      | ok second s₂ =>
        have hfirst := shows_of_rolled (rollDice_eq_ok.mp hfirst)
        have hsecond' := shows_of_rolled (rollDice_eq_ok.mp hsecond)
        rw [bind_apply_of_ok hsecond, bind_apply_of_ok hsecond, map_pure,
          chooseByWords?_eq hfirst hsecond']

/-- Words add up the dice and the modifiers without an overflow, and what they come to is exact.
The last addition does not saturate, since it comes to the exact total, too. -/
structure ExactTotals (r : Roll) (set : List DieOutcome) : Prop where
  subtotals : ∀ o ∈ set, ComesTo o.subtotalWord? o.values.sum
  signedTotals : ∀ o ∈ set,
    ComesTo o.signedWord? ((if o.die.negative then -1 else 1) * (o.values.sum : Int))
  dice : ComesTo (diceWord? set) (signedSum set)
  modifiers : ComesTo (modifierWord? r.modifiers) r.modifiers.sum
  total : ComesTo (totalWord? set r.modifiers) (signedSum set + r.modifiers.sum)

theorem Shows.exactTotals (h : r.Shows set) : r.ExactTotals set := by
  have hdice := h.comesTo_dice
  have htotal := h.comesTo_total
  rw [diceTotal_eq_signedSum] at hdice htotal
  refine ⟨fun o ho => (h.rolled o ho).comesTo_subtotal, fun o ho => ?_, hdice,
    r.comesTo_modifier, htotal⟩
  rw [← o.signedTotal_eq]
  exact (h.rolled o ho).comesTo_signed

/-- Whatever is drawn, the dice of a roll show their faces, and words of 32 bits are wide enough
for all that is added up for it, the dice that are not kept included. What the roll comes to in
words is what it comes to exactly. Its total and its losing total lie between the least and the
greatest sum that it can come to. -/
theorem evaluate_exact {ρ ε : Type} [Source ρ ε] (r : Roll) (s : ρ) :
    (∀ set s', Rolled s r.dice set s' → r.Shows set ∧ r.ExactTotals set) ∧
    r.evaluateByWords s = (some <$> r.evaluate) s ∧
    (-2500000 ≤ r.leastTotal ∧ r.greatestTotal ≤ 2500000) ∧
    ∀ o s', r.evaluate s = .ok o s' →
      r.Shows o.dice ∧ r.ExactTotals o.dice ∧ o.total = signedSum o.dice + r.modifiers.sum ∧
        (r.leastTotal ≤ o.total ∧ o.total ≤ r.greatestTotal) ∧
        ∀ losing, o.losingTotal = some losing →
          (r.leastTotal ≤ losing ∧ losing ≤ r.greatestTotal) ∧
            ∃ other, r.Shows other ∧ r.ExactTotals other ∧
              losing = signedSum other + r.modifiers.sum := by
  refine ⟨fun set s' hrolled => ?_, r.evaluateByWords_eq s, r.totals_within, fun o s' heval => ?_⟩
  · have hshows := shows_of_rolled hrolled
    exact ⟨hshows, hshows.exactTotals⟩
  · have houtcome := hasOutcome_of_evaluate heval
    have htotal : o.total = signedSum o.dice + r.modifiers.sum := by
      rw [RollOutcome.total_eq, houtcome.modifiers]
    refine ⟨houtcome.shows, houtcome.shows.exactTotals, htotal, ?_, fun losing hlosing => ?_⟩
    · rw [htotal]
      exact houtcome.shows.sum_between
    · obtain ⟨other, hother, rfl⟩ := houtcome.exists_other hlosing
      exact ⟨hother.sum_between, other, hother, hother.exactTotals, rfl⟩

/-- Values of no face are drawn for each of the dice, and the second set is kept. -/
theorem evaluate_exact_strays : ∃ r o, ofText "2d6-1d4+3" .advantage = .ok r ∧
    r.evaluate (⟨[0, 9, 70000, 3, 3, 0]⟩ : Script) = .ok o ⟨[]⟩ ∧
    o.dice.map DieOutcome.values = [[3, 3], [1]] ∧ o.total = 8 ∧ o.losingTotal = some 6 ∧
    r.Shows o.dice ∧ r.ExactTotals o.dice ∧ r.leastTotal = 1 ∧ r.greatestTotal = 14 := by
  have hread : ofText "2d6-1d4+3" .advantage = .ok
      ⟨[⟨2, 6, false, by decide, by decide⟩, ⟨1, 4, true, by decide, by decide⟩], [3],
        .advantage, by decide, by decide, by decide⟩ := by
    decide +kernel
  obtain ⟨o, heval, hvalues, htotal, hlosing⟩ :
      ∃ o, (Roll.mk [⟨2, 6, false, by decide, by decide⟩, ⟨1, 4, true, by decide, by decide⟩] [3]
        .advantage (by decide) (by decide) (by decide)).evaluate
          (⟨[0, 9, 70000, 3, 3, 0]⟩ : Script) = .ok o ⟨[]⟩ ∧
        o.dice.map DieOutcome.values = [[3, 3], [1]] ∧ o.total = 8 ∧ o.losingTotal = some 6 :=
    ⟨_, rfl, by decide, by decide, by decide⟩
  obtain ⟨hshows, hexact, -⟩ := (evaluate_exact _ _).2.2.2 o _ heval
  exact ⟨_, o, hread, heval, hvalues, htotal, hlosing, hshows, hexact, by decide, by decide⟩

end Roll

end DiceBot
