import DiceBot.Dice

/-!
# Rolls

A roll has at least one term of dice, any modifiers, and a mode. It has no more
terms than allowed, and its modifiers are within their limit.
-/
namespace DiceBot

/-- Whether a roll is made once, or twice with the better or the worse result kept. -/
inductive Mode where
  | normal | advantage | disadvantage
  deriving DecidableEq, Repr

/-- Dice and modifiers that are added up. -/
structure Roll where
  dice : List Die
  modifiers : List Int
  mode : Mode
  dice_ne_nil : dice ≠ []
  parts_le : dice.length + modifiers.length ≤ maxParts
  modifiers_admitted : ∀ m ∈ modifiers, Limit.modifier.Admits m
  deriving DecidableEq, Repr

/-- The terms of dice after the first one; a minus sign is already part of the die. -/
def laterDieText (d : Die) : String := (if d.negative then "" else "+") ++ d.text

def modifierText (m : Int) : String := (if 0 ≤ m then "+" else "") ++ toString m

def rollText (dice : List Die) (modifiers : List Int) : String :=
  let diceText := match dice with
    | [] => ""
    | d :: ds => d.text ++ String.join (ds.map laterDieText)
  diceText ++ String.join (modifiers.map modifierText)

namespace Roll

/-- A roll of the given parts. It is checked that there are dice, then the number
of parts, then the modifiers in order. -/
def ofParts (dice : List Die) (modifiers : List Int) (mode : Mode) : Except Error Roll :=
  if hd : dice = [] then .error (.ofWhole (rollText dice modifiers) .noDice)
  else if hp : dice.length + modifiers.length ≤ maxParts then
    match hm : modifiers.find? fun m => ¬ Limit.modifier.Admits m with
    | some m => .error (.outOfRange Limit.modifier (toString m))
    | none => .ok ⟨dice, modifiers, mode, hd, hp, by simpa [List.find?_eq_none] using hm⟩
  else .error (.tooManyParts (dice.length + modifiers.length) maxParts)

theorem ofParts_eq_ok {dice : List Die} {modifiers : List Int} (hd : dice ≠ [])
    (hp : dice.length + modifiers.length ≤ maxParts)
    (hm : ∀ m ∈ modifiers, Limit.modifier.Admits m) (mode : Mode) :
    ofParts dice modifiers mode = .ok ⟨dice, modifiers, mode, hd, hp, hm⟩ := by
  rw [ofParts, dif_neg hd, dif_pos hp]
  split
  next m hsome =>
    exact absurd (hm m (List.mem_of_find?_eq_some hsome)) (by simpa using List.find?_some hsome)
  · rfl

def withMode (r : Roll) (mode : Mode) : Roll := { r with mode }

/-- The notation of a roll does not show its mode. -/
def text (r : Roll) : String := rollText r.dice r.modifiers

def modifierTotal (r : Roll) : Int := r.modifiers.foldr (· + ·) 0

end Roll

end DiceBot
