import DiceBot.Proofs.LineEffects
import DiceBot.Proofs.RelatedSources
import DiceBot.Proofs.SavedRollReplay

/-!
# Owners do not disturb each other

Two bots are the same for an owner if they differ only in what others have saved. A line of the
owner is then answered in the same way by both and leaves them the same for the owner; a line of
anyone else does so, too, if it is handled by only one of them, unless it draws from the source.
So without draws for others, what an owner sees is what the owner would see alone.
-/
namespace DiceBot

def Request.isRoll : Request → Bool
  | .roll _ | .use _ => true
  | _ => false

def asksToRoll (line : String) : Bool := (Request.ofLine? line).any Request.isRoll

private theorem SavedRolls.get_after_congr {s s' : SavedRolls} {owner : Owner} {name : String}
    (h : s.get owner name = s'.get owner name) (change : Change) :
    (s.after change).get owner name = (s'.after change).get owner name := by
  have hlookup : s.byName[(owner, name)]? = s'.byName[(owner, name)]? := by
    apply Option.ext
    intro args
    rw [← get_eq_ok, ← get_eq_ok, h]
  have hafter : (s.after change).byName[(owner, name)]? =
      (s'.after change).byName[(owner, name)]? := by
    apply Option.ext
    intro args
    rw [byName_after, byName_after, hlookup]
  rw [get, get, hafter]

namespace Bot

/-- The bots differ at most in what other owners have saved. -/
structure SameFor {ρ : Type} (owner : Owner) (b b' : Bot ρ) : Prop where
  source : b.source = b'.source
  texts : b.texts = b'.texts
  maxRolls : b.maxRolls = b'.maxRolls
  saved : ∀ name, b.saved.get owner name = b'.saved.get owner name

section
variable {ρ : Type} {b b' : Bot ρ} {owner : Owner}

theorem SameFor.refl (owner : Owner) (b : Bot ρ) : SameFor owner b b :=
  ⟨rfl, rfl, rfl, fun _ => rfl⟩

/-- What is planned may differ only in what others have saved. -/
theorem SameFor.plan (h : SameFor owner b b') (request : Request) :
    (b.plan owner request).map Action.effect = (b'.plan owner request).map Action.effect := by
  cases request with
  | roll args => rw [Bot.plan, Bot.plan, h.maxRolls]
  | save args =>
    cases args with
    | nil => rfl
    | cons name args =>
      rw [Bot.plan, Bot.plan, planSave, planSave, h.maxRolls, SavedRolls.save, SavedRolls.save]
      cases RollCommand.ofArgsWithin b'.maxRolls args with
      | error e => rfl
      | ok command => cases RollCommand.ofArgs args <;> rfl
  | use args =>
    rw [Bot.plan, Bot.plan, h.maxRolls]
    cases nameOf args with
    | error e => rfl
    | ok name => rw [ok_bind, ok_bind, h.saved]
  | delete args =>
    rw [Bot.plan, Bot.plan]
    cases nameOf args with
    | error e => rfl
    | ok name =>
      have hmem : (owner, name) ∈ b.saved.byName ↔ (owner, name) ∈ b'.saved.byName := by
        rw [SavedRolls.mem_byName, SavedRolls.mem_byName, h.saved]
      rw [ok_bind, ok_bind, SavedRolls.delete, SavedRolls.delete]
      by_cases hname : (owner, name) ∈ b.saved.byName
      · rw [if_pos hname, if_pos (hmem.mp hname)]
        rfl
      · rw [if_neg hname, if_neg (mt hmem.mpr hname)]
  | help => rw [Bot.plan, Bot.plan, h.texts]
  | about => rw [Bot.plan, Bot.plan, h.texts]
  | unknown command => rfl

private theorem SameFor.effect (h : SameFor owner b b') (line : String) :
    b.effect owner line = b'.effect owner line := by
  cases hline : Request.ofLine? line with
  | none => rw [effect_blank hline, effect_blank hline]
  | some request =>
    rcases map_eq_map.mp (h.plan request) with
      ⟨e, hb, hb'⟩ | ⟨action, action', hb, hb', heffect⟩
    · rw [effect_refused hline hb, effect_refused hline hb', errorReply, errorReply, h.texts]
    · rw [effect_planned hline hb, effect_planned hline hb', heffect]

end

variable {ρ ε : Type} [Source ρ ε] {b b' : Bot ρ} {owner other : Owner} {line : String}
  {lines : List (Owner × String)}

private theorem SameFor.carryOut (h : SameFor owner b b') (effect : Effect) :
    SameResult (SameFor owner) (carryOut effect b) (carryOut effect b') := by
  cases effect with
  | reply text => exact .ok h
  | change change =>
    exact .ok ⟨h.source, h.texts, h.maxRolls, fun name =>
      SavedRolls.get_after_congr (h.saved name) change⟩
  | roll command =>
    have hdraws : SameResult Eq (command.evaluateAndRender b.source)
        (command.evaluateAndRender b'.source) := by
      rw [h.source]
      exact .refl _
    refine (hdraws.withSource some).mono ?_
    rintro _ _ ⟨source, -, rfl, rfl, rfl⟩
    exact ⟨rfl, h.texts, h.maxRolls, h.saved⟩

/-- A line of the owner does not tell the bots apart. -/
theorem SameFor.handle (h : SameFor owner b b') (line : String) :
    SameResult (SameFor owner) (handle owner line b) (handle owner line b') := by
  rw [handle_eq_carryOut, handle_eq_carryOut, ← h.effect line]
  exact h.carryOut _

private theorem get_next_of_ne (hne : other ≠ owner) (name : String) :
    (b.next other line).saved.get owner name = b.saved.get owner name := by
  by_cases hsaved : (b.next other line).saved = b.saved
  · rw [hsaved]
  · obtain ⟨change, heffect⟩ := effect_of_saved_ne hsaved
    obtain ⟨request, -, hchange⟩ := effect_eq_change heffect
    obtain ⟨name', hkey⟩ := Request.exists_key_of_change? hchange
    have hother : change.key ≠ (owner, name) := by
      rw [hkey]
      exact fun heq => hne (congrArg Prod.fst heq)
    rw [next, handle_of_change heffect]
    exact SavedRolls.get_after_of_ne hother

/-- A line of anyone else may be left out, if it leaves the source alone. -/
theorem SameFor.skip (h : SameFor owner b b') (hne : other ≠ owner)
    (hsource : (b.next other line).source = b.source) :
    SameFor owner (b.next other line) b' where
  source := hsource.trans h.source
  texts := (next_texts b other line).trans h.texts
  maxRolls := (next_maxRolls b other line).trans h.maxRolls
  saved name := (get_next_of_ne hne name).trans (h.saved name)

private theorem source_next_of_not_asksToRoll (h : asksToRoll line = false) :
    (b.next owner line).source = b.source := by
  by_contra hsource
  obtain ⟨command, heffect⟩ := effect_of_source_ne hsource
  obtain ⟨args, hasked, -, -⟩ := effect_eq_roll heffect
  rcases hasked with hline | ⟨name, hline, -⟩
  · simp [asksToRoll, hline, Request.isRoll] at h
  · simp [asksToRoll, hline, Request.isRoll] at h

private theorem source_next_of_steady
    (hsteady : ∀ (sides : Nat) (s : ρ), stateLeft (Source.draw sides s) = s) :
    (b.next owner line).source = b.source := by
  by_contra hsource
  obtain ⟨command, heffect⟩ := effect_of_source_ne hsource
  rw [next_of_roll heffect] at hsource
  exact hsource (command.stateLeft_evaluateAndRender hsteady b.source)

/-- How the lines of the owner are answered, or how they fail, if all lines are handled in
their order. -/
def answersTo (b : Bot ρ) (owner : Owner) :
    List (Owner × String) → List (Except ε (Option String))
  | [] => []
  | (sender, line) :: lines =>
    let later := (b.next sender line).answersTo owner lines
    if sender = owner then given (handle sender line b) :: later else later

/-- The owner gets the same answers and has the same rolls saved as without the lines of
others. -/
structure Undisturbed (b : Bot ρ) (owner : Owner) (lines : List (Owner × String)) : Prop where
  answers : b.answersTo owner lines = b.answersTo owner (lines.filter (·.1 = owner))
  saved : ∀ name, (b.run lines).saved.get owner name =
    (b.run (lines.filter (·.1 = owner))).saved.get owner name

/-- While lines of others are skipped, the bots stay the same for the owner. -/
theorem SameFor.run (h : SameFor owner b b')
    (hsource : ∀ entry ∈ lines, entry.1 ≠ owner →
      ∀ b : Bot ρ, (b.next entry.1 entry.2).source = b.source) :
    b.answersTo owner lines = b'.answersTo owner (lines.filter (·.1 = owner)) ∧
      SameFor owner (b.run lines) (b'.run (lines.filter (·.1 = owner))) := by
  induction lines generalizing b b' with
  | nil => exact ⟨rfl, h⟩
  | cons entry lines ih =>
    obtain ⟨sender, line⟩ := entry
    have hlater (entry : Owner × String) (hentry : entry ∈ lines) :=
      hsource entry (List.mem_cons_of_mem _ hentry)
    by_cases howner : sender = owner
    · -- Both bots handle the line, and it may draw: their sources are equal.
      subst howner
      have hboth := h.handle line
      obtain ⟨hanswers, hrun⟩ := ih hboth.stateLeft hlater
      simp only [List.filter_cons, decide_true, if_true, answersTo, Bot.run]
      exact ⟨by rw [hboth.given_eq]; exact congrArg _ hanswers, hrun⟩
    · -- Only the first bot handles the line.
      have hskip := h.skip howner (hsource _ List.mem_cons_self howner b)
      obtain ⟨hanswers, hrun⟩ := ih hskip hlater
      simp only [List.filter_cons, howner, decide_false, if_false, answersTo, Bot.run]
      exact ⟨hanswers, hrun⟩

theorem undisturbed_of_source
    (hsource : ∀ entry ∈ lines, entry.1 ≠ owner →
      ∀ b : Bot ρ, (b.next entry.1 entry.2).source = b.source) : b.Undisturbed owner lines := by
  obtain ⟨hanswers, hrun⟩ := (SameFor.refl owner b).run hsource
  exact ⟨hanswers, hrun.saved⟩

/-- Lines of others make no difference to an owner if every draw gives the highest face or the
same value, or if no line of others asks for a roll. Who differs in the user or in the chat is
someone else. -/
theorem undisturbed (owner : Owner) (lines : List (Owner × String)) :
    (∀ b : Bot Highest, b.Undisturbed owner lines) ∧
    (∀ b : Bot Fixed, b.Undisturbed owner lines) ∧
    (∀ {ρ ε : Type} [Source ρ ε] (b : Bot ρ),
      (∀ entry ∈ lines, entry.1.user ≠ owner.user ∨ entry.1.chat ≠ owner.chat →
        asksToRoll entry.2 = false) →
      b.Undisturbed owner lines) := by
  refine ⟨fun b => ?_, fun b => ?_, fun {ρ ε} _ b hlines => ?_⟩
  · exact undisturbed_of_source fun _ _ _ _ => source_next_of_steady fun _ _ => rfl
  · exact undisturbed_of_source fun _ _ _ _ => source_next_of_steady fun _ _ => rfl
  · refine undisturbed_of_source fun entry hentry hne b => ?_
    have hother : entry.1.user ≠ owner.user ∨ entry.1.chat ≠ owner.chat := by
      obtain ⟨⟨user, chat⟩, line⟩ := entry
      obtain ⟨user', chat'⟩ := owner
      rwa [Ne, Owner.mk.injEq, not_and_or] at hne
    exact source_next_of_not_asksToRoll (hlines entry hentry hother)

theorem undisturbed_attack :
    let lines : List (Owner × String) := [(⟨1, 9⟩, "save attack 1d20"),
      (⟨1, 8⟩, "save attack 2d6"), (⟨2, 9⟩, "delete attack"), (⟨1, 9⟩, "use attack")]
    lines.filter (·.1 = ⟨1, 9⟩) = [(⟨1, 9⟩, "save attack 1d20"), (⟨1, 9⟩, "use attack")] ∧
      (∀ entry ∈ lines, entry.1.user ≠ 1 ∨ entry.1.chat ≠ 9 → asksToRoll entry.2 = false) ∧
      (new (⟨[7, 15]⟩ : Script) .builtIn (some 4)).Undisturbed ⟨1, 9⟩ lines := by
  intro lines
  have hlines : ∀ entry ∈ lines, entry.1.user ≠ 1 ∨ entry.1.chat ≠ 9 →
      asksToRoll entry.2 = false := by
    decide +kernel
  exact ⟨by decide, hlines, (undisturbed ⟨1, 9⟩ lines).2.2 _ hlines⟩

end Bot

end DiceBot
