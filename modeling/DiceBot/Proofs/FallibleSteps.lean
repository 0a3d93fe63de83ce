/-!
# Computations that may fail, step by step

Each lemma says of one way to build a computation when its result is a value, or when
it is an error, in terms of the results of its steps.
-/
namespace DiceBot

variable {ε ε' α β : Type}

@[simp] theorem ok_bind (a : α) (f : α → Except ε β) : (Except.ok a >>= f) = f a := rfl

@[simp] theorem error_bind (e : ε) (f : α → Except ε β) :
    (Except.error e >>= f) = .error e := rfl

theorem bind_eq_ok {x : Except ε α} {f : α → Except ε β} {b : β} :
    (x >>= f) = .ok b ↔ ∃ a, x = .ok a ∧ f a = .ok b := by
  cases x <;> simp

theorem bind_eq_error {x : Except ε α} {f : α → Except ε β} {e : ε} :
    (x >>= f) = .error e ↔ x = .error e ∨ ∃ a, x = .ok a ∧ f a = .error e := by
  cases x <;> simp

theorem map_eq_ok {x : Except ε α} {f : α → β} {b : β} :
    x.map f = .ok b ↔ ∃ a, x = .ok a ∧ f a = b := by
  cases x <;> simp [Except.map]

theorem map_eq_error {x : Except ε α} {f : α → β} {e : ε} :
    x.map f = .error e ↔ x = .error e := by
  cases x <;> simp [Except.map]

theorem map_eq_map {x y : Except ε α} {f : α → β} :
    x.map f = y.map f ↔ (∃ e, x = .error e ∧ y = .error e) ∨
      ∃ a a', x = .ok a ∧ y = .ok a' ∧ f a = f a' := by
  cases x <;> cases y <;> simp [Except.map, eq_comm]

@[simp] theorem mapError_ok (a : α) (f : ε → ε') :
    (Except.ok a : Except ε α).mapError f = .ok a := rfl

@[simp] theorem mapError_error (e : ε) (f : ε → ε') :
    (Except.error e : Except ε α).mapError f = .error (f e) := rfl

theorem mapError_eq_ok {x : Except ε α} {f : ε → ε'} {a : α} :
    x.mapError f = .ok a ↔ x = .ok a := by
  cases x <;> simp

/-- Whatever error the computation ends with has the property. -/
def FailsWith (P : ε → Prop) (x : Except ε α) : Prop := ∀ e, x = .error e → P e

namespace FailsWith

variable {P : ε → Prop}

theorem ok (a : α) : FailsWith P (.ok a) := by
  intro e he
  cases he

theorem error {e : ε} (h : P e) : FailsWith P (.error e : Except ε α) := by
  intro e' he'
  cases he'
  exact h

theorem bind {x : Except ε α} {f : α → Except ε β} (hx : FailsWith P x)
    (hf : ∀ a, x = .ok a → FailsWith P (f a)) : FailsWith P (x >>= f) := by
  intro e he
  rcases bind_eq_error.mp he with he | ⟨a, ha, he⟩
  · exact hx e he
  · exact hf a ha e he

end FailsWith

/-! The same for computations that leave a state behind, whether they fail or not. -/

variable {σ : Type}

theorem bind_apply_eq_ok {x : EStateM ε σ α} {f : α → EStateM ε σ β} {b : β} {s s₂ : σ} :
    (x >>= f) s = .ok b s₂ ↔ ∃ a s₁, x s = .ok a s₁ ∧ f a s₁ = .ok b s₂ := by
  change EStateM.bind x f s = _ ↔ _
  rw [EStateM.bind]
  constructor
  · intro h
    cases hx : x s with
    | ok a s₁ => exact ⟨a, s₁, rfl, by simpa [hx] using h⟩
    | error e s₁ => simp [hx] at h
  · rintro ⟨a, s₁, hx, hf⟩
    simpa [hx] using hf

theorem bind_apply_of_ok {x : EStateM ε σ α} {a : α} {s s₁ : σ} (h : x s = .ok a s₁)
    (f : α → EStateM ε σ β) : (x >>= f) s = f a s₁ := by
  change EStateM.bind x f s = _
  rw [EStateM.bind, h]

theorem bind_apply_of_error {x : EStateM ε σ α} {e : ε} {s s₁ : σ} (h : x s = .error e s₁)
    (f : α → EStateM ε σ β) : (x >>= f) s = .error e s₁ := by
  change EStateM.bind x f s = _
  rw [EStateM.bind, h]

theorem map_apply_eq_ok {x : EStateM ε σ α} {f : α → β} {b : β} {s s₁ : σ} :
    (f <$> x) s = .ok b s₁ ↔ ∃ a, x s = .ok a s₁ ∧ f a = b := by
  change EStateM.map f x s = _ ↔ _
  rw [EStateM.map]
  constructor
  · intro h
    cases hx : x s with
    | ok a s₂ =>
      obtain ⟨hf, rfl⟩ : f a = b ∧ s₂ = s₁ := by simpa [hx] using h
      exact ⟨a, rfl, hf⟩
    | error e s₂ => simp [hx] at h
  · rintro ⟨a, hx, rfl⟩
    simp [hx]

theorem get_bind_apply (f : σ → EStateM ε σ α) (s : σ) : (get >>= f) s = f s s := rfl

theorem pure_apply_eq_ok {a b : α} {s s₁ : σ} :
    (pure a : EStateM ε σ α) s = .ok b s₁ ↔ a = b ∧ s = s₁ := by
  change EStateM.Result.ok a s = _ ↔ _
  simp

/-- Where there are no errors, a computation does not fail. -/
theorem exists_apply_eq_ok (x : EStateM Empty σ α) (s : σ) : ∃ a s', x s = .ok a s' := by
  cases h : x s with
  | ok a s' => exact ⟨a, s', rfl⟩
  | error e => exact e.elim

end DiceBot
