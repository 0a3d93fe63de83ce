import DiceBot.Rolls

/-!
# Rolls from text

An expression is read in stages, and the first stage that fails names the error:
its terms, their number, each term's numbers in the order written, and whether
there are any dice at all.
-/
namespace DiceBot

/-- If each element of a list is counted by just one of two functions, all are counted. -/
theorem length_filterMap_add {α β γ : Type} {f : α → Option β} {g : α → Option γ}
    (h : ∀ a, (f a).isSome = (g a).isNone) (l : List α) :
    (l.filterMap f).length + (l.filterMap g).length = l.length := by
  have hg : (fun a => (g a).isSome) = fun a => decide (¬ (f a).isSome = true) := by
    funext a
    rw [h]
    cases g a <;> rfl
  rw [List.length_filterMap_eq_countP, List.length_filterMap_eq_countP, hg,
    ← List.length_eq_countP_add_countP]

/-- A term with its numbers read; each of them is within its limit. -/
inductive Part where
  | die (die : Die)
  | modifier (amount : Int) (admitted : Limit.modifier.Admits amount)
  deriving DecidableEq, Repr

def PartsOf (terms : List Term) : Type := { parts : List Part // parts.length = terms.length }

namespace Part

def ofTerm : Term → Except Error Part
  | .dice term => do pure (.die (← Die.ofTerm term))
  | .modifier negative magnitude => do
      let ⟨amount, hamount⟩ ←
        Limit.modifier.read .int32 ((if negative then "-" else "") ++ magnitude)
      pure (.modifier amount hamount)

/-- One part for each term, unless the first term that is refused names the error. -/
def ofTerms : (terms : List Term) → Except Error (PartsOf terms)
  | [] => .ok ⟨[], rfl⟩
  | t :: later => do
      let part ← ofTerm t
      let parts ← ofTerms later
      pure ⟨part :: parts.val, congrArg (· + 1) parts.property⟩

def die? : Part → Option Die
  | .die d => some d
  | .modifier .. => none

def modifier? : Part → Option Int
  | .die _ => none
  | .modifier amount _ => some amount

theorem length_filterMap (parts : List Part) :
    (parts.filterMap die?).length + (parts.filterMap modifier?).length = parts.length :=
  length_filterMap_add (fun p => by cases p <;> rfl) parts

theorem modifiers_admitted (parts : List Part) :
    ∀ m ∈ parts.filterMap modifier?, Limit.modifier.Admits m := by
  intro m hm
  obtain ⟨part, -, hpart⟩ := List.mem_filterMap.mp hm
  cases part with
  | die d => cases hpart
  | modifier amount hamount =>
    cases hpart
    exact hamount

end Part

/-- The roll of the parts of an expression; only the dice can still be missing. -/
def Roll.ofPartsRead (expression : String) {terms : List Term} (parts : PartsOf terms)
    (hlen : terms.length ≤ maxParts) (mode : Mode) : Except Error Roll :=
  if hd : parts.val.filterMap Part.die? = [] then .error (.ofWhole expression .noDice)
  else .ok ⟨parts.val.filterMap Part.die?, parts.val.filterMap Part.modifier?, mode, hd,
    by rwa [Part.length_filterMap, parts.property], Part.modifiers_admitted parts.val⟩

/-- The roll that an expression such as `1d20+4d6+5-2` stands for. -/
def Roll.ofText (expression : String) (mode : Mode) : Except Error Roll := do
  let terms ← (termsOfExpression expression).mapError (Misreading.toError expression)
  if hlen : terms.length ≤ maxParts then
    let parts ← Part.ofTerms terms
    ofPartsRead expression parts hlen mode
  else .error (.tooManyParts terms.length maxParts)

end DiceBot
