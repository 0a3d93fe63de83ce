import DiceBot.Proofs.BotSteps
import DiceBot.Proofs.ScriptedRolls

/-!
# Rolls on related sources

A command looks at its source only through the values it draws. So if two sources give the
same values in states that are related, and every draw leaves them related, then a command
comes to the same on both and leaves them related, too. The relation may depend on a number
of draws, which then tells how often a command draws at most.
-/
namespace DiceBot

variable {ρ σ ε : Type}

/-- The two computations give the same, and the states they leave are related. -/
inductive SameResult {α : Type} (R : ρ → σ → Prop) :
    EStateM.Result ε ρ α → EStateM.Result ε σ α → Prop
  | ok {a : α} {s : ρ} {t : σ} (h : R s t) : SameResult R (.ok a s) (.ok a t)
  | error {e : ε} {s : ρ} {t : σ} (h : R s t) : SameResult R (.error e s) (.error e t)

theorem SameResult.mono {α : Type} {R R' : ρ → σ → Prop} {x : EStateM.Result ε ρ α}
    {y : EStateM.Result ε σ α} (h : SameResult R x y) (hR : ∀ s t, R s t → R' s t) :
    SameResult R' x y := by
  cases h with
  | ok h => exact .ok (hR _ _ h)
  | error h => exact .error (hR _ _ h)

theorem SameResult.given_eq {α : Type} {R : ρ → σ → Prop} {x : EStateM.Result ε ρ α}
    {y : EStateM.Result ε σ α} (h : SameResult R x y) : given x = given y := by
  cases h <;> rfl

theorem SameResult.stateLeft {α : Type} {R : ρ → σ → Prop} {x : EStateM.Result ε ρ α}
    {y : EStateM.Result ε σ α} (h : SameResult R x y) : R (stateLeft x) (stateLeft y) := by
  cases h with
  | ok h => exact h
  | error h => exact h

theorem SameResult.refl {α : Type} (x : EStateM.Result ε ρ α) : SameResult Eq x x := by
  cases x with
  | ok a s => exact .ok rfl
  | error e s => exact .error rfl

/-- Bots that draw in the same way change nothing but their sources. -/
theorem SameResult.withSource {α β : Type} {R : ρ → σ → Prop} {x : EStateM ε ρ α}
    {y : EStateM ε σ α} {b : Bot ρ} {b' : Bot σ} (h : SameResult R (x b.source) (y b'.source))
    (f : α → β) :
    SameResult
      (fun c c' => ∃ s t, R s t ∧ c = { b with source := s } ∧ c' = { b' with source := t })
      ((f <$> Bot.withSource x) b) ((f <$> Bot.withSource y) b') := by
  change SameResult _ (EStateM.map f (Bot.withSource x) b) (EStateM.map f (Bot.withSource y) b')
  rw [EStateM.map, EStateM.map, Bot.withSource, Bot.withSource]
  generalize x b.source = first, y b'.source = first' at h
  cases h with
  | ok h => exact .ok ⟨_, _, h, rfl, rfl⟩
  | error h => exact .error ⟨_, _, h, rfl, rfl⟩

/-- The relation is kept by draws from the two sources, each of which adds one to the number
that it depends on. A greater number is always allowed. -/
structure KeptByDraws [Source ρ ε] [Source σ ε] (R : Nat → ρ → σ → Prop) : Prop where
  mono : ∀ {n m : Nat} {s : ρ} {t : σ}, n ≤ m → R n s t → R m s t
  draw : ∀ (sides : Nat) {n : Nat} {s : ρ} {t : σ}, R n s t →
    SameResult (R (n + 1)) (Source.draw sides s) (Source.draw sides t)

/-- Started in related states, the two actions give the same and leave related states, and
they draw `n` times at most. -/
def Alike {α : Type} (R : Nat → ρ → σ → Prop) (x : EStateM ε ρ α) (y : EStateM ε σ α)
    (n : Nat) : Prop :=
  ∀ (k : Nat) (s : ρ) (t : σ), R k s t → SameResult (R (k + n)) (x s) (y t)

namespace Alike

variable {R : Nat → ρ → σ → Prop} {α β : Type} {x : EStateM ε ρ α} {y : EStateM ε σ α}
  {n m : Nat}

private theorem congr (h : Alike R x y n) (hn : n = m) : Alike R x y m := hn ▸ h

protected theorem pure (a : α) :
    Alike R (pure a : EStateM ε ρ α) (pure a : EStateM ε σ α) 0 :=
  fun _ _ _ hst => .ok hst

protected theorem map (f : α → β) (h : Alike R x y n) : Alike R (f <$> x) (f <$> y) n := by
  intro k s t hst
  have hxy := h k s t hst
  change SameResult _ (EStateM.map f x s) (EStateM.map f y t)
  rw [EStateM.map, EStateM.map]
  generalize x s = first, y t = first' at hxy
  cases hxy with
  | ok h => exact .ok h
  | error h => exact .error h

section
variable [Source ρ ε] [Source σ ε] (hR : KeptByDraws R)
include hR

protected theorem bind {f : α → EStateM ε ρ β} {g : α → EStateM ε σ β} (hx : Alike R x y n)
    (hf : ∀ a, Alike R (f a) (g a) m) : Alike R (x >>= f) (y >>= g) (n + m) := by
  intro k s t hst
  have hxy := hx k s t hst
  generalize hs : x s = first, ht : y t = first' at hxy
  cases hxy with
  | ok h =>
    rw [bind_apply_of_ok hs, bind_apply_of_ok ht, ← Nat.add_assoc]
    exact hf _ _ _ _ h
  | error h =>
    rw [bind_apply_of_error hs, bind_apply_of_error ht]
    exact .error (hR.mono (by omega) h)

theorem mapM {f : α → EStateM ε ρ β} {g : α → EStateM ε σ β} {cost : α → Nat}
    (hf : ∀ a, Alike R (f a) (g a) (cost a)) (l : List α) :
    Alike R (l.mapM f) (l.mapM g) (l.map cost).sum := by
  induction l with
  | nil => exact Alike.pure []
  | cons a l ih =>
    rw [List.mapM_cons, List.mapM_cons, List.map_cons, List.sum_cons]
    refine Alike.bind hR (hf a) fun b => ?_
    rw [bind_pure_comp, bind_pure_comp]
    exact ih.map (b :: ·)

private theorem face (sides : Nat) : Alike R (Source.face sides) (Source.face sides) 1 :=
  Alike.map _ fun _ _ _ hst => hR.draw sides hst

private theorem die (d : Die) : Alike R d.roll d.roll d.count := by
  rw [Die.roll, Die.roll, bind_pure_comp, bind_pure_comp]
  refine Alike.map _ ((Alike.mapM hR (Alike.face hR) (List.replicate d.count d.sides)).congr ?_)
  simp

private theorem rollDice (r : Roll) : Alike R r.rollDice r.rollDice r.diceCount :=
  Alike.mapM hR (Alike.die hR) r.dice

private theorem evaluate (r : Roll) : Alike R r.evaluate r.evaluate r.draws := by
  rw [Roll.evaluate, Roll.evaluate, Roll.draws]
  by_cases hmode : r.mode = .normal
  · simp only [if_pos hmode, bind_pure_comp, Nat.one_mul]
    exact Alike.map (RollOutcome.mk · r.modifiers r.mode none) (Alike.rollDice hR r)
  · simp only [if_neg hmode, bind_pure_comp, Nat.two_mul]
    exact Alike.bind hR (Alike.rollDice hR r) fun first =>
      Alike.map (r.choose first) (Alike.rollDice hR r)

theorem evaluateAndRender (c : RollCommand) :
    Alike R c.evaluateAndRender c.evaluateAndRender c.draws := by
  rw [RollCommand.evaluateAndRender, RollCommand.evaluateAndRender, c.evaluate_eq_mapM,
    c.evaluate_eq_mapM, ← c.sum_draws_rolls]
  exact Alike.map _ (Alike.mapM hR (Alike.evaluate hR) c.rolls)

end

end Alike

/-- A command leaves a source as it was if every draw does. -/
theorem RollCommand.stateLeft_evaluateAndRender [Source ρ ε] (c : RollCommand)
    (hsteady : ∀ (sides : Nat) (s : ρ), stateLeft (Source.draw sides s) = s) (s : ρ) :
    stateLeft (c.evaluateAndRender s) = s := by
  have hkept : KeptByDraws fun (_ : Nat) (t t' : ρ) => t = s ∧ t' = s := by
    refine ⟨fun _ h => h, fun sides n t t' ⟨ht, ht'⟩ => ?_⟩
    have hdraw := hsteady sides s
    rw [ht, ht']
    cases hs : Source.draw sides s with
    | ok value t =>
      rw [hs] at hdraw
      exact .ok ⟨hdraw, hdraw⟩
    | error e t =>
      rw [hs] at hdraw
      exact .error ⟨hdraw, hdraw⟩
  exact (Alike.evaluateAndRender hkept c 0 s s ⟨rfl, rfl⟩).stateLeft.1

end DiceBot
