import DiceBot.CommandLines
import DiceBot.Proofs.LineTexts
import DiceBot.Proofs.SavedRollReplay
import DiceBot.Proofs.SoundErrors

/-!
# One command, rolled by the program or by the bot

The arguments of the program are rolled as a bot rolls the same words in a line: with the same
seed and the same bound, the output is the reply, and what is refused ends the errors with the
reply. For this the reply to a refused command has to be one line, which it is because an error
shows nothing of the arguments but numerals.
-/
namespace DiceBot

theorem get?_builtIn_syntaxKey : Texts.builtIn.get? syntaxKey =
    some "Syntax: `/roll <rolls>d<die>+[roll/modifier] [dis/adv] [x<qty>]`" := by
  rw [Texts.get?, Texts.builtIn,
    Std.HashMap.getElem?_ofList_of_mem (k := syntaxKey) (by simp) (by decide) List.mem_cons_self]

theorem textOf_builtIn_syntaxKey : Texts.builtIn.textOf syntaxKey =
    "Syntax: `/roll <rolls>d<die>+[roll/modifier] [dis/adv] [x<qty>]`" := by
  rw [Texts.textOf, get?_builtIn_syntaxKey, Option.getD_some]

private theorem isTrimmedLine_syntaxText : IsTrimmedLine (Texts.builtIn.textOf syntaxKey) := by
  rw [textOf_builtIn_syntaxKey]
  exact ⟨by decide, '`', by decide, by decide⟩

private theorem Limit.IsEnforced.oneLine_what {limit : Limit} (h : limit.IsEnforced) :
    OneLine limit.what := by
  cases h with
  | dice => decide
  | sides => decide
  | modifier => decide
  | repeats => decide
  | totalRolls most =>
    have hwhat : OneLine "Total number of rolls" := by decide
    exact hwhat

namespace Error

/-- The message about a number, or about a number of parts, is one line that ends with a
bracket. -/
theorem Sound.exists_message_eq {e : Error} (h : e.Sound) (hfault : ¬ e.isSyntax) :
    ∃ start, OneLine start ∧ e.message = start ++ ")" := by
  cases h with
  | invalidSyntax => exact absurd rfl hfault
  | @outOfRange limit value henforced hnumeral hout =>
    obtain ⟨n, hn⟩ := hnumeral
    have hbetween : OneLine " must be between " := by decide
    have hand : OneLine " and " := by decide
    have hgot : OneLine " (got " := by decide
    have hleast := (henforced.oneLine_what.append hbetween).append
      (oneLine_toString_int limit.least)
    have hgreatest := (hleast.append hand).append (oneLine_toString_int limit.greatest)
    exact ⟨_, (hgreatest.append hgot).append hn.oneLine, rfl⟩
  | @tooManyParts count hcount =>
    have hmost : OneLine "a roll may only have up to 25 parts (" := by decide
    have hgiven : OneLine " given" := by decide
    refine ⟨_, (hmost.append (oneLine_toString_nat count)).append hgiven, ?_⟩
    rw [String.append_assoc]
    rfl

private theorem Sound.isTrimmedLine_message {e : Error} (h : e.Sound) (hfault : ¬ e.isSyntax) :
    IsTrimmedLine e.message := by
  obtain ⟨start, hstart, hmessage⟩ := h.exists_message_eq hfault
  have hclose : OneLine ")" := by decide
  rw [hmessage]
  exact ⟨hstart.append hclose, ')', by simp, by decide⟩

/-- No message is the text that answers a syntax error. -/
theorem Sound.message_ne_syntaxText {e : Error} (h : e.Sound) (hfault : ¬ e.isSyntax) :
    e.message ≠ Texts.builtIn.textOf syntaxKey := by
  obtain ⟨start, -, hmessage⟩ := h.exists_message_eq hfault
  have hlast : e.message.toList.getLast? = some ')' := by simp [hmessage]
  rintro hsame
  rw [hsame, textOf_builtIn_syntaxKey] at hlast
  simp at hlast

end Error

theorem RollCommand.ofArgsWithin_sound (maxRolls : Option Nat) (args : List String) :
    FailsWith Error.Sound (ofArgsWithin maxRolls args) := by
  refine (ofArgs_sound args).bind fun c _ => FailsWith.bind ?_ fun _ _ => .ok c
  cases maxRolls with
  | none => exact .ok ()
  | some most => exact c.ensureMaxRolls_sound most

/-- The program ends as a bot replies that is asked for the same command, which is read or
refused. More lines may stand before the errors, and the last line is the reply still. -/
inductive Ending.Says (reply : String) : Except Error RollCommand → Ending → Prop
  | rolled (c : RollCommand) : Says reply (.ok c) ⟨0, reply ++ "\n", ""⟩
  | refused {e : Error} {errors : String}
      (hlast : ∀ before, WholeLines before → lastLine (before ++ errors) = reply)
      (hhow : reply = Texts.builtIn.textOf syntaxKey ↔ e.isSyntax)
      (hwhy : ¬ e.isSyntax → reply = e.message) :
      Says reply (.error e) ⟨1, "", errors⟩

/-- The reply to a refused command is said by an error output that is just this line. -/
theorem Ending.says_refused {e : Error} (h : e.Sound) {b : Bot Seeded}
    (htexts : b.texts = .builtIn) :
    Ending.Says (b.errorReply e) (.error e) ⟨1, "", b.errorReply e ++ "\n"⟩ := by
  have hreply : b.errorReply e =
      if e.isSyntax then Texts.builtIn.textOf syntaxKey else e.message := by
    rw [Bot.errorReply, htexts]
  by_cases hfault : e.isSyntax
  · rw [hreply, if_pos hfault]
    refine .refused (fun before hbefore => lastLine_append hbefore isTrimmedLine_syntaxText) ?_ ?_
    · simp [hfault]
    · exact fun h => absurd hfault h
  · rw [hreply, if_neg hfault]
    have hline := h.isTrimmedLine_message hfault
    refine .refused (fun before hbefore => lastLine_append hbefore hline) ?_ fun _ => rfl
    simp [hfault, h.message_ne_syntaxText hfault]

/-- With a text for syntax errors it makes no difference what an absent one falls back to. -/
theorem rollOnce_refused {ρ ε : Type} [Source ρ ε] {maxRolls : Option Nat} {args : List String}
    {e : Error} (h : RollCommand.ofArgsWithin maxRolls args = .error e) {b : Bot ρ}
    (htexts : b.texts = .builtIn) (source : ρ) :
    rollOnce .builtIn maxRolls args source = .ok ⟨1, "", b.errorReply e ++ "\n"⟩ source := by
  have hreply : b.errorReply e =
      if e.isSyntax then (Texts.builtIn.get? syntaxKey).getD "" else e.message := by
    rw [Bot.errorReply, htexts, textOf_builtIn_syntaxKey, get?_builtIn_syntaxKey, Option.getD_some]
  rw [rollOnce, h, hreply]
  rfl

private theorem CommandLine.run_of_args {ρ ε : Type} [Source ρ ε] {c : CommandLine ρ}
    {texts : Texts} (htexts : c.texts = .ok texts) (hargs : c.args ≠ []) :
    c.run = rollOnce texts c.maxRolls c.args := by
  rw [run, htexts]
  exact if_pos hargs

/-- Words that are rolled as the arguments of the program, or asked to be rolled in a line to a
new bot with the same seed and the same bound, give the same: the program prints the reply, or
ends its errors with it, and leaves the source as the bot does. -/
theorem CommandLine.run_says (seed : UInt64) (maxRolls : Option Nat) (path input : String)
    (owner : Owner) {args : List String} (hne : args ≠ []) (hargs : ∀ arg ∈ args, IsWord arg) :
    ∃ reply ending left,
      Bot.handle owner (" ".intercalate ("roll" :: args))
          (.new (⟨seed⟩ : Seeded) .builtIn maxRolls) = .ok (some reply) left ∧
      (⟨⟨seed⟩, maxRolls, path, .ok .builtIn, args, input⟩ : CommandLine Seeded).run ⟨seed⟩ =
        .ok ending left.source ∧
      ending.Says reply (RollCommand.ofArgsWithin maxRolls args) := by
  have hline := Bot.ofLine?_roll hargs
  have hrun : (⟨⟨seed⟩, maxRolls, path, .ok .builtIn, args, input⟩ : CommandLine Seeded).run =
      rollOnce .builtIn maxRolls args := run_of_args rfl hne
  let b : Bot Seeded := .new ⟨seed⟩ .builtIn maxRolls
  cases hcommand : RollCommand.ofArgsWithin maxRolls args with
  | ok command =>
    have hplan : b.plan owner (.roll args) = .ok (.roll command) :=
      Bot.plan_roll_eq_ok.mpr ⟨command, hcommand, rfl⟩
    obtain ⟨text, left, htext⟩ :=
      exists_apply_eq_ok (command.evaluateAndRender : EStateM Empty Seeded String) ⟨seed⟩
    refine ⟨text, ⟨0, text ++ "\n", ""⟩, { b with source := left }, ?_, ?_, ?_⟩
    · rw [Bot.handle_planned hline hplan]
      refine map_apply_eq_ok.mpr ⟨text, ?_, rfl⟩
      rw [Bot.perform, Bot.withSource]
      simp only [b, Bot.new, htext]
    · rw [hrun, rollOnce, hcommand]
      exact bind_apply_eq_ok.mpr ⟨text, left, htext, rfl⟩
    · exact .rolled command
  | error e =>
    have hplan : b.plan owner (.roll args) = .error e := bind_eq_error.mpr (.inl hcommand)
    have hsound : e.Sound := RollCommand.ofArgsWithin_sound maxRolls args e hcommand
    refine ⟨_, _, b, Bot.handle_refused hline hplan, ?_, Ending.says_refused hsound rfl⟩
    rw [hrun]
    exact rollOnce_refused (b := b) hcommand rfl ⟨seed⟩

theorem CommandLine.run_says_refused :
    ["1d20", "x4"] ≠ [] ∧ (∀ arg ∈ ["1d20", "x4"], IsWord arg) ∧ ∃ reply ending left,
      Bot.handle localOwner "roll 1d20 x4" (.new (⟨42⟩ : Seeded) .builtIn (some 3)) =
        .ok (some reply) left ∧
      (⟨⟨42⟩, some 3, "", .ok .builtIn, ["1d20", "x4"], ""⟩ : CommandLine Seeded).run ⟨42⟩ =
        .ok ending left.source ∧
      ending.exitCode = 1 ∧ ending.output = "" ∧ lastLine ending.errors = reply ∧
      reply = "Total number of rolls must be between 1 and 3 (got 4)" := by
  have hargs : ∀ arg ∈ ["1d20", "x4"], IsWord arg := by decide
  obtain ⟨reply, ending, left, hreply, hrun, hsays⟩ :=
    run_says 42 (some 3) "" "" localOwner (by decide) hargs
  have hrefused : RollCommand.ofArgsWithin (some 3) ["1d20", "x4"] =
      .error (.outOfRange (.totalRolls 3) "4") := by
    decide +kernel
  rw [hrefused] at hsays
  cases hsays with
  | refused hlast hhow hwhy =>
    exact ⟨by decide, hargs, reply, _, left, hreply, hrun, rfl, rfl, hlast "" (.inl rfl),
      hwhy (by decide)⟩

end DiceBot
