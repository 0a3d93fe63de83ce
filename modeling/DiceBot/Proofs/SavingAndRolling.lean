import DiceBot.Proofs.RollCaps

/-!
# Saving and rolling

Arguments to be saved are checked twice: by the bot as if they were to be rolled at once, and
then by the saved rolls, which know nothing of a bound. The second check never refuses what the
first has let pass. So a line that saves comes to nothing just where the line that rolls the
same arguments does, and both are answered with the same error.
-/
namespace DiceBot

/-- Arguments are refused if they are no command, or if the command makes too many rolls. -/
theorem RollCommand.ofArgsWithin_eq_error {maxRolls : Option Nat} {args : List String}
    {e : Error} :
    ofArgsWithin maxRolls args = .error e ↔ ofArgs args = .error e ∨
      ∃ command most, ofArgs args = .ok command ∧ maxRolls = some most ∧
        most < command.totalRolls ∧ e = command.tooManyRolls most := by
  rw [ofArgsWithin, bind_eq_error]
  refine or_congr_right (exists_congr fun command => ?_)
  cases maxRolls with
  | none => simp [ensureWithin, pure, Except.pure]
  | some most =>
    rw [ensureWithin]
    by_cases hle : command.totalRolls ≤ most
    · rw [ensureMaxRolls_eq_ok.mpr hle]
      simp [pure, Except.pure, hle]
    · have hlt : most < command.totalRolls := Nat.lt_of_not_le hle
      rw [ensureMaxRolls_eq_error hlt]
      simp [hlt, eq_comm]

/-- What is out of range is named at the start of the message. -/
theorem Error.exists_message_outOfRange (limit : Limit) (value : String) :
    ∃ rest, (Error.outOfRange limit value).message = limit.what ++ rest := by
  change ∃ rest, limit.what ++ " must be between " ++ toString limit.least ++ " and "
    ++ toString limit.greatest ++ " (got " ++ value ++ ")" = limit.what ++ rest
  simp only [String.append_assoc]
  exact ⟨_, rfl⟩

namespace SavedRolls

variable {s : SavedRolls} {owner : Owner} {name : String} {args : List String}

private theorem get_after_saved : (s.after (.saved owner name args)).get owner name = .ok args :=
  get_eq_ok.mpr (byName_after.mpr (.inl rfl))

/-- What the check of the bot lets pass is saved, whatever was saved before. -/
theorem save_of_ofArgsWithin {maxRolls : Option Nat} {command : RollCommand}
    (h : RollCommand.ofArgsWithin maxRolls args = .ok command) :
    s.save owner name args = .ok (s.after (.saved owner name args)) :=
  save_eq_ok.mpr ⟨⟨command, (RollCommand.ofArgsWithin_eq_ok.mp h).1⟩, rfl⟩

def OnlyCommands (s : SavedRolls) : Prop :=
  ∀ owner name args, s.get owner name = .ok args → ∃ command, RollCommand.ofArgs args = .ok command

theorem onlyCommands_empty : empty.OnlyCommands := by
  intro owner name args hget
  rw [get_eq_ok] at hget
  simp [empty] at hget

private theorem OnlyCommands.after {change : Change} (h : s.OnlyCommands)
    (hchange : change.Accepted) :
    (s.after change).OnlyCommands := by
  intro owner name args hget
  rcases byName_after.mp (get_eq_ok.mp hget) with rfl | ⟨-, hbefore⟩
  · exact hchange
  · exact h owner name args (get_eq_ok.mpr hbefore)

private theorem OnlyCommands.perform (h : s.OnlyCommands) (op : Operation) :
    (s.perform op).OnlyCommands := by
  rw [perform_eq]
  cases hmade : s.made? op with
  | none => exact h
  | some change => exact h.after (accepted_of_made? hmade)

private theorem OnlyCommands.run (h : s.OnlyCommands) (ops : List Operation) :
    (s.run ops).OnlyCommands := by
  induction ops generalizing s with
  | nil => exact h
  | cons op ops ih => exact ih (h.perform op)

end SavedRolls

namespace Bot

section
variable {ρ : Type} {b : Bot ρ} {owner : Owner} {name line : String} {args : List String}
  {command : RollCommand} {e : Error}

private theorem plan_roll_eq_error :
    b.plan owner (.roll args) = .error e ↔
      RollCommand.ofArgsWithin b.maxRolls args = .error e := by
  rw [plan, bind_eq_error]
  simp [pure, Except.pure]

private theorem plan_save_eq_error :
    b.plan owner (.save (name :: args)) = .error e ↔
      RollCommand.ofArgsWithin b.maxRolls args = .error e := by
  rw [plan, planSave, bind_eq_error]
  constructor
  · rintro (herror | ⟨command, hcommand, hsave⟩)
    · exact herror
    · rw [SavedRolls.save_of_ofArgsWithin hcommand] at hsave
      cases hsave
  · exact .inl

/-- The reply to arguments that are a command but make too many rolls is not the one to
arguments that were saved. -/
theorem errorReply_ne_saved (name : String) (hread : RollCommand.ofArgs args = .ok command)
    (herror : RollCommand.ofArgsWithin b.maxRolls args = .error e) :
    b.errorReply e ≠ "Saved roll \"" ++ name ++ "\"." := by
  rcases RollCommand.ofArgsWithin_eq_error.mp herror with hargs | ⟨command', most, -, -, -, rfl⟩
  · rw [hread] at hargs
    cases hargs
  · obtain ⟨rest, hmessage⟩ := Error.exists_message_outOfRange (Limit.totalRolls most)
      (toString (command'.totalRolls : Int))
    have hreply : b.errorReply (command'.tooManyRolls most) = "Total number of rolls" ++ rest :=
      hmessage
    rw [hreply]
    intro htext
    have hletter := congrArg (fun text => text.toList.head?) htext
    simp at hletter

/-- A line that saves is not one that rolls. -/
theorem effect_of_save (hline : Request.ofLine? line = some (.save args)) :
    b.effect owner line ≠ .roll command := by
  intro heffect
  obtain ⟨args', hasked, -, -⟩ := effect_eq_roll heffect
  rcases hasked with hroll | ⟨name, huse, -⟩
  · rw [hline] at hroll
    cases hroll
  · rw [hline] at huse
    cases huse

end

variable {ρ ε : Type} [Source ρ ε] {b : Bot ρ} {owner : Owner} {name : String}
  {args : List String} {command : RollCommand} {e : Error}

def saveLine (name : String) (args : List String) : String :=
  " ".intercalate ("save" :: name :: args)

def rollLine (args : List String) : String := " ".intercalate ("roll" :: args)

theorem ofLine?_saveLine (hname : IsWord name) (hargs : ∀ w ∈ args, IsWord w) :
    Request.ofLine? (saveLine name args) = some (.save (name :: args)) :=
  Request.ofLine?_intercalate (by decide) (List.forall_mem_cons.mpr ⟨hname, hargs⟩)

/-- The line is answered that the roll is saved, and the arguments are found under the name;
`result` is what comes of the line. -/
structure SaysSaved (owner : Owner) (name : String) (args : List String)
    (result : EStateM.Result ε (Bot ρ) (Option String)) : Prop where
  reply : given result = .ok (some ("Saved roll \"" ++ name ++ "\"."))
  found : (stateLeft result).saved.get owner name = .ok args

/-- The line is answered so because the arguments were really saved, and only they. -/
structure Saves (b : Bot ρ) (owner : Owner) (name : String) (args : List String)
    (result : EStateM.Result ε (Bot ρ) (Option String)) : Prop
    extends SaysSaved owner name args result where
  stored : ∃ saved, b.saved.save owner name args = .ok saved ∧ stateLeft result = { b with saved }

/-- The arguments are a command that is really rolled, even if the source fails then. -/
def Rolls (b : Bot ρ) (args : List String)
    (result : EStateM.Result ε (Bot ρ) (Option String)) : Prop :=
  ∃ command, RollCommand.ofArgsWithin b.maxRolls args = .ok command ∧
    result = (some <$> withSource command.evaluateAndRender) b

/-- The arguments are refused with an error, and nothing is changed. -/
def Refuses (b : Bot ρ) (args : List String) (e : Error)
    (result : EStateM.Result ε (Bot ρ) (Option String)) : Prop :=
  RollCommand.ofArgsWithin b.maxRolls args = .error e ∧ result = .ok (some (b.errorReply e)) b

private theorem saves_of_accepted (owner : Owner) (hname : IsWord name)
    (hargs : ∀ w ∈ args, IsWord w)
    (hcommand : RollCommand.ofArgsWithin b.maxRolls args = .ok command) :
    b.Saves owner name args (handle owner (saveLine name args) b) := by
  have hplan : b.plan owner (.save (name :: args)) =
      .ok (.keep (b.saved.after (.saved owner name args)) (Change.saved owner name args).reply) :=
    plan_save_eq_ok.mpr ⟨⟨command, hcommand⟩, rfl⟩
  rw [handle_planned (ofLine?_saveLine hname hargs) hplan]
  exact ⟨⟨rfl, SavedRolls.get_after_saved⟩, _, SavedRolls.save_of_ofArgsWithin hcommand, rfl⟩

theorem rolls_of_accepted (owner : Owner) (hargs : ∀ w ∈ args, IsWord w)
    (hcommand : RollCommand.ofArgsWithin b.maxRolls args = .ok command) :
    b.Rolls args (handle owner (rollLine args) b) := by
  have hplan : b.plan owner (.roll args) = .ok (.roll command) :=
    plan_roll_eq_ok.mpr ⟨command, hcommand, rfl⟩
  exact ⟨command, hcommand, handle_planned (ofLine?_roll hargs) hplan⟩

/-- What is refused is neither saved nor rolled, and the answer is the same. -/
theorem refuses_of_error (owner : Owner) (hname : IsWord name) (hargs : ∀ w ∈ args, IsWord w)
    (herror : RollCommand.ofArgsWithin b.maxRolls args = .error e) :
    b.Refuses args e (handle owner (saveLine name args) b) ∧
      b.Refuses args e (handle owner (rollLine args) b) :=
  ⟨⟨herror, handle_refused (ofLine?_saveLine hname hargs) (plan_save_eq_error.mpr herror)⟩,
    ⟨herror, handle_refused (ofLine?_roll hargs) (plan_roll_eq_error.mpr herror)⟩⟩

section
omit [Source ρ ε]
variable {result : EStateM.Result ε (Bot ρ) (Option String)}

/-- Arguments that are refused are not said to be saved, if they are a command. -/
theorem Refuses.not_saysSaved (h : b.Refuses args e result)
    (hread : RollCommand.ofArgs args = .ok command) : ¬ SaysSaved owner name args result := by
  rintro ⟨hreply, -⟩
  obtain ⟨herror, hresult⟩ := h
  rw [hresult, given, Except.ok.injEq, Option.some_inj] at hreply
  exact errorReply_ne_saved name hread herror hreply

private theorem Refuses.not_saves (h : b.Refuses args e result) :
    ¬ b.Saves owner name args result := by
  rintro ⟨hsaid, saved, hstored, -⟩
  obtain ⟨⟨command, hread⟩, -⟩ := SavedRolls.save_eq_ok.mp hstored
  exact h.not_saysSaved hread hsaid

/-- Where only commands are saved, arguments that are refused are not said to be saved. -/
theorem Refuses.not_saysSaved_of_onlyCommands (h : b.Refuses args e result)
    (honly : b.saved.OnlyCommands) : ¬ SaysSaved owner name args result := by
  intro hsaid
  have hfound : b.saved.get owner name = .ok args := by
    have hget := hsaid.found
    rwa [h.2] at hget
  obtain ⟨command, hread⟩ := honly owner name args hfound
  exact h.not_saysSaved hread hsaid

end

private theorem Refuses.not_rolls {result : EStateM.Result ε (Bot ρ) (Option String)}
    (h : b.Refuses args e result) : ¬ b.Rolls args result := by
  rintro ⟨command, hcommand, -⟩
  rw [h.1] at hcommand
  cases hcommand

/-- What comes of saving the arguments and what comes of rolling them, compared. -/
structure Compared (b : Bot ρ) (owner : Owner) (name : String) (args : List String)
    (saving rolling : EStateM.Result ε (Bot ρ) (Option String)) : Prop where
  saves_iff : b.Saves owner name args saving ↔ b.Rolls args rolling
  /-- The reply and what is found tell whether something was saved: the saved rolls come from
  some operations, so nothing else can have been under the name before. -/
  saysSaved_iff : ∀ ops, b.saved = SavedRolls.empty.run ops →
    (SaysSaved owner name args saving ↔ b.Rolls args rolling)
  refuses : ¬ b.Rolls args rolling → ∃ e, b.Refuses args e saving ∧ b.Refuses args e rolling

theorem compared (owner : Owner) (hname : IsWord name) (hargs : ∀ w ∈ args, IsWord w) :
    b.Compared owner name args (handle owner (saveLine name args) b)
      (handle owner (rollLine args) b) := by
  cases hwithin : RollCommand.ofArgsWithin b.maxRolls args with
  | ok command =>
    have hsaves := saves_of_accepted owner hname hargs hwithin
    have hrolls := rolls_of_accepted owner hargs hwithin
    exact ⟨iff_of_true hsaves hrolls, fun _ _ => iff_of_true hsaves.toSaysSaved hrolls,
      fun hnot => absurd hrolls hnot⟩
  | error e =>
    obtain ⟨hsaving, hrolling⟩ := refuses_of_error owner hname hargs hwithin
    refine ⟨iff_of_false hsaving.not_saves hrolling.not_rolls, ?_, fun _ => ⟨e, hsaving, hrolling⟩⟩
    intro ops hops
    have honly : b.saved.OnlyCommands := hops ▸ SavedRolls.onlyCommands_empty.run ops
    exact iff_of_false (hsaving.not_saysSaved_of_onlyCommands honly) hrolling.not_rolls

/-- Arguments are saved just if they would be rolled, with the bound on the rolls that the bot
has, and are otherwise refused with the same error. The saved rolls do not fail where the check
of the bot does not, and a line that saves draws nothing. -/
theorem save_agrees_with_roll (b : Bot ρ) (owner : Owner) :
    (∀ name args, IsWord name → (∀ w ∈ args, IsWord w) →
      b.Compared owner name args (handle owner (saveLine name args) b)
        (handle owner (rollLine args) b)) ∧
    (∀ (s : SavedRolls) name args command,
      RollCommand.ofArgsWithin b.maxRolls args = .ok command →
        ∃ s', s.save owner name args = .ok s') ∧
    ∀ line args, Request.ofLine? line = some (.save args) →
      b.drawsFor owner line = 0 ∧ (b.next owner line).source = b.source := by
  refine ⟨fun name args => compared owner, ?_, ?_⟩
  · intro s name args command hcommand
    exact ⟨_, SavedRolls.save_of_ofArgsWithin hcommand⟩
  · intro line args hline
    refine ⟨drawsFor_eq_zero fun command => effect_of_save hline, ?_⟩
    by_contra hsource
    obtain ⟨command, heffect⟩ := effect_of_source_ne hsource
    exact effect_of_save hline heffect

theorem save_agrees_with_roll_attack :
    let b := new (⟨[7]⟩ : Script) .builtIn (some 3)
    let args := ["1d20", "adv", "x3"]
    (IsWord "attack" ∧ ∀ w ∈ args, IsWord w) ∧ b.saved = SavedRolls.empty.run [] ∧
      b.Rolls args (handle ⟨1, 9⟩ (rollLine args) b) ∧
      SaysSaved ⟨1, 9⟩ "attack" args (handle ⟨1, 9⟩ (saveLine "attack" args) b) ∧
      (∃ s', b.saved.save ⟨1, 9⟩ "attack" args = .ok s') ∧
      Request.ofLine? "/save attack 1d20 x4" = some (.save ["attack", "1d20", "x4"]) ∧
      b.drawsFor ⟨1, 9⟩ "/save attack 1d20 x4" = 0 := by
  intro b args
  have hname : IsWord "attack" := by decide
  have hargs : ∀ w ∈ args, IsWord w := by decide
  obtain ⟨command, hcommand⟩ : ∃ command, RollCommand.ofArgsWithin b.maxRolls args = .ok command :=
    ⟨⟨⟨⟨[⟨1, 20, false, by decide, by decide⟩], [], .advantage, by decide, by decide, by decide⟩,
      3, by decide⟩, []⟩, by decide +kernel⟩
  have hline : Request.ofLine? "/save attack 1d20 x4" = some (.save ["attack", "1d20", "x4"]) := by
    decide
  obtain ⟨hcompared, hsave, hdraws⟩ := save_agrees_with_roll b ⟨1, 9⟩
  have hrolls := rolls_of_accepted ⟨1, 9⟩ hargs hcommand
  exact ⟨⟨hname, hargs⟩, rfl, hrolls,
    ((hcompared "attack" args hname hargs).saysSaved_iff [] rfl).mpr hrolls,
    hsave b.saved "attack" args command hcommand, hline, (hdraws _ _ hline).1⟩

end Bot

end DiceBot
