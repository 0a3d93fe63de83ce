import DiceBot.Proofs.ArgumentGroups
import DiceBot.Proofs.ExpressionOutcomes

/-!
# Which arguments are read as a command, and as which

While arguments are read from the left, the entry in progress is always the one that its
group gives so far. So each step fails just if its argument breaks a rule, and what is
left in the end has one entry for each group.
-/
namespace DiceBot

/-- The mode that options select. They do not name two, and the normal one is never named. -/
def ModeOf (options : List String) (mode : Mode) : Prop :=
  (∀ arg ∈ options, ∀ m, IsModeArg arg m → m = mode) ∧
    (mode = .normal ∨ ∃ arg ∈ options, IsModeArg arg mode)

/-- How often options repeat a roll: as the last of them says that says how often. -/
def RepeatsOf (options : List String) (n : Nat) : Prop :=
  (∃ before arg after, options = before ++ arg :: after ∧ IsRepeatArg arg n ∧
    ∀ a ∈ after, ∀ k, ¬ IsRepeatArg a k) ∨
  n = 1 ∧ ∀ arg ∈ options, ∀ k, ¬ IsRepeatArg arg k

structure ArgGroup.Gives (g : ArgGroup) (e : Entry) : Prop where
  roll : Roll.ofText g.roll e.roll.mode = .ok e.roll
  mode : ModeOf g.options e.roll.mode
  repeats : RepeatsOf g.options e.repeats

theorem Mode.ofWord?_eq_some {arg : String} {mode : Mode} :
    Mode.ofWord? arg = some mode ↔ IsModeArg arg mode := by
  constructor
  · intro h
    rw [ofWord?] at h
    split at h
    · cases h
    · rename_i hne
      split at h
      · rename_i hpre
        cases h
        exact ⟨hne, _, rfl, List.isPrefixOf_iff_prefix.mp hpre⟩
      · split at h
        · rename_i hpre
          cases h
          exact ⟨hne, _, rfl, List.isPrefixOf_iff_prefix.mp hpre⟩
        · cases h
  · intro h
    have hunique := fun m (hm : IsModeArg arg m) => hm.unique h
    obtain ⟨hne, name, hname, hpre⟩ := h
    rw [ofWord?, if_neg hne]
    split
    · rename_i hadv
      exact congrArg some (hunique .advantage ⟨hne, _, rfl, List.isPrefixOf_iff_prefix.mp hadv⟩)
    · rename_i hadv
      rw [List.isPrefixOf_iff_prefix] at hadv
      cases mode with
      | normal => cases hname
      | advantage =>
        cases hname
        exact absurd hpre hadv
      | disadvantage =>
        cases hname
        exact if_pos (List.isPrefixOf_iff_prefix.mpr hpre)

theorem repeatDigits?_eq_some {arg digits : String} :
    repeatDigits? arg = some digits ↔ IsDigits digits ∧ arg = "x" ++ digits := by
  constructor
  · intro h
    rw [repeatDigits?] at h
    split at h
    · rename_i rest hcs
      rw [Option.ite_none_right_eq_some] at h
      obtain ⟨hd, hsome⟩ := h
      cases hsome
      refine ⟨by simpa [IsDigits] using hd, ?_⟩
      rw [← String.toList_inj, hcs]
      simp
    · cases h
  · rintro ⟨hd, rfl⟩
    have hcs : ("x" ++ digits).toList = 'x' :: digits.toList := by simp
    simp only [repeatDigits?, hcs]
    rw [if_pos ⟨hd.1, hd.2⟩, String.ofList_toList]

namespace Entry

variable {e : Entry} {arg : String}

theorem withOption_mode {mode : Mode} (h : IsModeArg arg mode) :
    e.withOption arg =
      if e.roll.mode = .normal ∨ e.roll.mode = mode then
        .ok { e with roll := e.roll.withMode mode }
      else .error (.ofWhole arg .bothModes) := by
  rw [withOption, Mode.ofWord?_eq_some.mpr h]

private theorem ofWord?_eq_none (h : ∀ mode, ¬ IsModeArg arg mode) : Mode.ofWord? arg = none :=
  Option.eq_none_iff_forall_ne_some.mpr fun mode hmode => h mode (Mode.ofWord?_eq_some.mp hmode)

theorem withOption_repeats {n : Nat} (h : IsRepeatArg arg n) (hn : 1 ≤ n ∧ n ≤ 4294967295) :
    ∃ e', e.withOption arg = .ok e' ∧ e'.roll = e.roll ∧ e'.repeats = n := by
  have hmode := ofWord?_eq_none fun mode hm => hm.not_isRepeatArg h
  obtain ⟨digits, hd, harg, rfl⟩ := h
  have hadmits : Limit.repeats.Admits (decimal digits) := by
    refine ⟨?_, ?_⟩ <;> simp only [Limit.repeats] <;> omega
  have hread := Limit.read_admitted (NumberType.value?_digits .uint32 hd) (by decide) hadmits
  rw [withOption, hmode, repeatDigits?_eq_some.mpr ⟨hd, harg⟩]
  simp only [hread, ok_bind]
  exact ⟨_, rfl, rfl, rfl⟩

theorem withOption_refused {digits : String} (hd : IsDigits digits) (harg : arg = "x" ++ digits)
    (hn : ¬ (1 ≤ decimal digits ∧ decimal digits ≤ 4294967295)) :
    e.withOption arg =
      .error (.outOfRange .repeats (if decimal digits = 0 then "0" else digits)) := by
  have hmode := ofWord?_eq_none fun mode hm => hm.not_isRepeatArg ⟨digits, hd, harg, rfl⟩
  have hadmits : ¬ Limit.repeats.Admits (decimal digits) := by
    rintro ⟨hle, hge⟩
    simp only [Limit.repeats] at hle hge
    omega
  have hread := Limit.read_refused (NumberType.value?_digits .uint32 hd) hadmits
  have hvalue : (if NumberType.uint32.Holds (decimal digits) then toString (decimal digits : Int)
      else digits) = if decimal digits = 0 then "0" else digits := by
    by_cases hzero : decimal digits = 0
    · rw [if_pos hzero, hzero]
      rfl
    · have hlarge : ¬ NumberType.uint32.Holds (decimal digits) := by
        rintro ⟨-, hge⟩
        simp only [NumberType.greatest] at hge
        omega
      rw [if_neg hzero, if_neg hlarge]
  rw [withOption, hmode, repeatDigits?_eq_some.mpr ⟨hd, harg⟩]
  simp only [hread, error_bind, hvalue]

theorem withOption_unknown (hmode : ∀ mode, ¬ IsModeArg arg mode)
    (hrepeat : ∀ n, ¬ IsRepeatArg arg n) :
    e.withOption arg = .error (.ofWhole arg .unknownArgument) := by
  have hdigits : repeatDigits? arg = none := by
    refine Option.eq_none_iff_forall_ne_some.mpr fun digits h => ?_
    obtain ⟨hd, harg⟩ := repeatDigits?_eq_some.mp h
    exact hrepeat _ ⟨digits, hd, harg, rfl⟩
  rw [withOption, ofWord?_eq_none hmode, hdigits]

end Entry

private theorem ModeOf.append_mode {options : List String} {arg : String} {m mode : Mode}
    (h : ModeOf options m) (harg : IsModeArg arg mode) (hm : m = .normal ∨ m = mode) :
    ModeOf (options ++ [arg]) mode := by
  refine ⟨List.forall_mem_append.mpr ⟨fun a ha k hk => ?_, ?_⟩, .inr ⟨arg, by simp, harg⟩⟩
  · have hkm := h.1 a ha k hk
    obtain rfl | rfl := hm
    · exact absurd (hkm ▸ hk) (not_isModeArg_normal a)
    · exact hkm
  · simpa using fun k hk => hk.unique harg

private theorem ModeOf.append_other {options : List String} {arg : String} {m : Mode}
    (h : ModeOf options m) (harg : ∀ mode, ¬ IsModeArg arg mode) :
    ModeOf (options ++ [arg]) m := by
  refine ⟨List.forall_mem_append.mpr ⟨h.1, ?_⟩, h.2.imp_right fun ⟨a, ha, hm⟩ => ⟨a, ?_, hm⟩⟩
  · simpa using fun k hk => absurd hk (harg k)
  · exact List.mem_append_left _ ha

private theorem RepeatsOf.append_repeat (options : List String) {arg : String} {n : Nat}
    (harg : IsRepeatArg arg n) : RepeatsOf (options ++ [arg]) n :=
  .inl ⟨options, arg, [], rfl, harg, by simp⟩

private theorem RepeatsOf.append_other {options : List String} {arg : String} {n : Nat}
    (h : RepeatsOf options n) (harg : ∀ k, ¬ IsRepeatArg arg k) :
    RepeatsOf (options ++ [arg]) n := by
  have hlast : ∀ a ∈ [arg], ∀ k, ¬ IsRepeatArg a k := by simpa using harg
  obtain ⟨before, a, after, rfl, ha, hafter⟩ | ⟨rfl, hnone⟩ := h
  · exact .inl ⟨before, a, after ++ [arg], by simp, ha,
      List.forall_mem_append.mpr ⟨hafter, hlast⟩⟩
  · exact .inr ⟨rfl, List.forall_mem_append.mpr ⟨hnone, hlast⟩⟩

def ArgGroup.withOption (g : ArgGroup) (arg : String) : ArgGroup :=
  { g with options := g.options ++ [arg] }

/-- The arguments end in a group, and what has been read of it gives the entry. -/
structure InProgress (before : List String) (g : ArgGroup) (e : Entry) : Prop where
  ends : ∃ earlier, before = earlier ++ g.roll :: g.options
  roll : startsRoll g.roll
  options : ∀ arg ∈ g.options, ¬ startsRoll arg
  gives : g.Gives e

namespace InProgress

theorem once (before : List String) {arg : String} {r : Roll} (hroll : startsRoll arg)
    (h : Roll.ofText arg .normal = .ok r) : InProgress (before ++ [arg]) ⟨arg, []⟩ (.once r) where
  ends := ⟨before, rfl⟩
  roll := hroll
  options := by simp
  gives := by
    have hmode : (Entry.once r).roll.mode = .normal := Roll.mode_of_ofText h
    refine ⟨?_, ⟨by simp, .inl hmode⟩, .inr ⟨rfl, by simp⟩⟩
    rw [hmode]
    exact h

variable {before : List String} {g : ArgGroup} {e e' : Entry} {arg : String}

theorem exists_startsRoll (h : InProgress before g e) : ∃ a ∈ before, startsRoll a := by
  obtain ⟨earlier, rfl⟩ := h.ends
  exact ⟨g.roll, by simp, h.roll⟩

theorem withOption_of_gives (h : InProgress before g e) (harg : ¬ startsRoll arg)
    (hgives : (g.withOption arg).Gives e') :
    InProgress (before ++ [arg]) (g.withOption arg) e' where
  ends := by
    obtain ⟨earlier, rfl⟩ := h.ends
    exact ⟨earlier, by simp [ArgGroup.withOption]⟩
  roll := h.roll
  options := List.forall_mem_append.mpr ⟨h.options, by simpa using harg⟩
  gives := hgives

/-- The options of the group in progress are those behind the last argument that starts a
roll. -/
theorem options_eq (h : InProgress before g e) {earlier options : List String} {roll : String}
    (hb : before = earlier ++ roll :: options) (hroll : startsRoll roll)
    (hopts : ∀ a ∈ options, ¬ startsRoll a) : options = g.options := by
  obtain ⟨earlier', hb'⟩ := h.ends
  have hsuffix : roll :: options <:+ before := ⟨earlier, hb.symm⟩
  have hsuffix' : g.roll :: g.options <:+ before := ⟨earlier', hb'.symm⟩
  obtain hle | hle := List.suffix_or_suffix_of_suffix hsuffix hsuffix'
  · obtain heq | hle := List.suffix_cons_iff.mp hle
    · exact (List.cons.inj heq).2
    · exact absurd hroll (h.options roll (hle.subset (by simp)))
  · obtain heq | hle := List.suffix_cons_iff.mp hle
    · exact (List.cons.inj heq).2.symm
    · exact absurd h.roll (hopts g.roll (hle.subset (by simp)))

private theorem withOption_of_breaks (h : InProgress before g e) (harg : ¬ startsRoll arg)
    {err : Error} (hbreak : Breaks before arg err) : e.withOption arg = .error err := by
  cases hbreak with
  | unreadable hroll hread => exact absurd hroll harg
  | early hopt hb =>
    obtain ⟨a, ha, hroll⟩ := h.exists_startsRoll
    exact absurd hroll (hb a ha)
  | @bothModes earlier options roll other mode mode' hb hroll hopts hmode hother hmode' hne =>
    rw [h.options_eq hb hroll hopts] at hother
    have hsame := h.gives.mode.1 other hother mode' hmode'
    rw [Entry.withOption_mode hmode, ← hsame, if_neg]
    rintro (rfl | rfl)
    · exact not_isModeArg_normal other hmode'
    · exact hne rfl
  | repeats hb hd hx hn => exact Entry.withOption_refused hd hx hn
  | unknown hopt hb hmode hrepeat => exact Entry.withOption_unknown hmode hrepeat

def Takes (before : List String) (g : ArgGroup) (e : Entry) (arg : String) : Prop :=
  (∃ e', e.withOption arg = .ok e' ∧ InProgress (before ++ [arg]) (g.withOption arg) e') ∨
    ∃ err, e.withOption arg = .error err ∧ Breaks before arg err

private theorem takes_mode (h : InProgress before g e) {mode : Mode} (hmode : IsModeArg arg mode) :
    Takes before g e arg := by
  by_cases hm : e.roll.mode = .normal ∨ e.roll.mode = mode
  · refine .inl ⟨_, (Entry.withOption_mode hmode).trans (if_pos hm), ?_⟩
    refine h.withOption_of_gives hmode.not_startsRoll ⟨?_, ?_, ?_⟩
    · exact Roll.ofText_eq_ok_withMode h.gives.roll mode
    · exact h.gives.mode.append_mode hmode hm
    · exact h.gives.repeats.append_other fun n => hmode.not_isRepeatArg
  · refine .inr ⟨_, (Entry.withOption_mode hmode).trans (if_neg hm), ?_⟩
    rw [not_or] at hm
    obtain ⟨earlier, hb⟩ := h.ends
    obtain ⟨other, hother, hmode'⟩ := h.gives.mode.2.resolve_left hm.1
    exact .bothModes hb h.roll h.options hmode hother hmode' (Ne.symm hm.2)

private theorem takes_repeats (h : InProgress before g e) {n : Nat} (hrepeat : IsRepeatArg arg n) :
    Takes before g e arg := by
  by_cases hn : 1 ≤ n ∧ n ≤ 4294967295
  · obtain ⟨e', he', hroll, hrepeats⟩ := Entry.withOption_repeats hrepeat hn
    refine .inl ⟨e', he', h.withOption_of_gives hrepeat.not_startsRoll ⟨?_, ?_, ?_⟩⟩
    · exact hroll ▸ h.gives.roll
    · exact hroll ▸ h.gives.mode.append_other fun mode hmode => hmode.not_isRepeatArg hrepeat
    · exact hrepeats ▸ .append_repeat g.options hrepeat
  · obtain ⟨digits, hd, hx, rfl⟩ := hrepeat
    exact .inr ⟨_, Entry.withOption_refused hd hx hn, .repeats h.exists_startsRoll hd hx hn⟩

theorem takes (h : InProgress before g e) (harg : ¬ startsRoll arg) : Takes before g e arg := by
  by_cases hmode : ∃ mode, IsModeArg arg mode
  · obtain ⟨mode, hmode⟩ := hmode
    exact h.takes_mode hmode
  · by_cases hrepeat : ∃ n, IsRepeatArg arg n
    · obtain ⟨n, hrepeat⟩ := hrepeat
      exact h.takes_repeats hrepeat
    · rw [not_exists] at hmode hrepeat
      exact .inr ⟨_, Entry.withOption_unknown hmode hrepeat,
        .unknown harg h.exists_startsRoll hmode hrepeat⟩

private theorem breaks_iff (h : InProgress before g e) (harg : ¬ startsRoll arg) (err : Error) :
    Breaks before arg err ↔ e.withOption arg = .error err := by
  refine ⟨h.withOption_of_breaks harg, fun herr => ?_⟩
  obtain ⟨e', he', -⟩ | ⟨err', herr', hbreak⟩ := h.takes harg
  · rw [he'] at herr
    cases herr
  · rw [herr'] at herr
    cases herr
    exact hbreak

theorem withOption (h : InProgress before g e) (harg : ¬ startsRoll arg)
    (he' : e.withOption arg = .ok e') :
    InProgress (before ++ [arg]) (g.withOption arg) e' := by
  obtain ⟨e'', hok, hnext⟩ | ⟨err, herr, -⟩ := h.takes harg
  · rw [hok] at he'
    cases he'
    exact hnext
  · rw [herr] at he'
    cases he'

end InProgress

theorem breaks_iff_ofText (before : List String) {arg : String} (hroll : startsRoll arg)
    (err : Error) : Breaks before arg err ↔ Roll.ofText arg .normal = .error err := by
  refine ⟨fun hbreak => ?_, .unreadable hroll⟩
  cases hbreak with
  | unreadable hroll hread => exact hread
  | early hopt hb => exact absurd hroll hopt
  | bothModes hb hroll' hopts hmode hother hmode' hne => exact absurd hroll hmode.not_startsRoll
  | repeats hb hd hx hn => exact absurd hroll (IsRepeatArg.not_startsRoll ⟨_, hd, hx, rfl⟩)
  | unknown hopt hb hmode hrepeat => exact absurd hroll hopt

private theorem breaks_iff_early {arg : String} (hopt : ¬ startsRoll arg) (err : Error) :
    Breaks [] arg err ↔
      (.error (.ofWhole arg .optionBeforeRoll) : Except Error Entry) = .error err := by
  constructor
  · intro hbreak
    cases hbreak with
    | unreadable hroll hread => exact absurd hroll hopt
    | early => rfl
    | bothModes hb => simp at hb
    | repeats hb => simp at hb
    | unknown _ hb => simp at hb
  · intro herr
    cases herr
    exact .early hopt (by simp)

/-- A step that fails just if its argument breaks a rule. -/
theorem firstBreak_cons {α : Type} {step : Except Error α} {before : List String} {arg : String}
    (hstep : ∀ err, Breaks before arg err ↔ step = .error err) (args : List String) (err : Error) :
    FirstBreak before (arg :: args) err ↔
      step = .error err ∨ (∃ a, step = .ok a) ∧ FirstBreak (before ++ [arg]) args err := by
  constructor
  · rintro (h | ⟨hno, h⟩)
    · exact .inl ((hstep err).mp h)
    · refine .inr ⟨?_, h⟩
      cases hs : step with
      | ok a => exact ⟨a, rfl⟩
      | error err' => exact absurd ((hstep err').mpr hs) (hno err')
  · rintro (h | ⟨⟨a, ha⟩, h⟩)
    · exact .here ((hstep err).mpr h)
    · refine .later (fun err' hbreak => ?_) h
      rw [hstep, ha] at hbreak
      cases hbreak

namespace RollCommand

def groupsFrom (g : ArgGroup) (args : List String) : List ArgGroup :=
  ⟨g.roll, g.options ++ args.takeWhile (¬ startsRoll ·)⟩ :: argGroups args

@[simp] theorem groupsFrom_nil (g : ArgGroup) : groupsFrom g [] = [g] := by
  simp [groupsFrom, argGroups]

private theorem groupsFrom_roll (g : ArgGroup) {arg : String} (hroll : startsRoll arg)
    (args : List String) : groupsFrom g (arg :: args) = g :: groupsFrom ⟨arg, []⟩ args := by
  simp [groupsFrom, argGroups, hroll]

private theorem groupsFrom_option (g : ArgGroup) {arg : String} (hopt : ¬ startsRoll arg)
    (args : List String) : groupsFrom g (arg :: args) = groupsFrom (g.withOption arg) args := by
  simp [groupsFrom, argGroups, ArgGroup.withOption, hopt]

/-- The reading fails just if some argument breaks a rule, with the error of the first one
that does. -/
theorem continueWith_eq_error {before : List String} {g : ArgGroup} {e : Entry}
    (h : InProgress before g e) (args : List String) (err : Error) :
    continueWith e args = .error err ↔ FirstBreak before args err := by
  induction args generalizing before g e with
  | nil =>
    constructor
    · intro hc
      cases hc
    · intro hbreak
      cases hbreak
  | cons arg args ih =>
    rw [continueWith]
    by_cases hroll : startsRoll arg
    · rw [if_pos hroll, bind_eq_error, firstBreak_cons (breaks_iff_ofText before hroll),
        ← exists_and_right]
      refine or_congr Iff.rfl (exists_congr fun r => and_congr_right fun hr => ?_)
      rw [← ih (InProgress.once before hroll hr), bind_eq_error]
      simp [pure, Except.pure]
    · rw [if_neg hroll, bind_eq_error, firstBreak_cons (h.breaks_iff hroll), ← exists_and_right]
      refine or_congr Iff.rfl (exists_congr fun e' => and_congr_right fun he' => ?_)
      exact ih (h.withOption hroll he')

theorem continueWith_eq_ok {before : List String} {g : ArgGroup} {e : Entry}
    (h : InProgress before g e) {args : List String} {c : RollCommand}
    (hc : continueWith e args = .ok c) :
    List.Forall₂ ArgGroup.Gives (groupsFrom g args) c.entries := by
  induction args generalizing before g e c with
  | nil =>
    cases hc
    rw [groupsFrom_nil]
    exact .cons h.gives .nil
  | cons arg args ih =>
    rw [continueWith] at hc
    by_cases hroll : startsRoll arg
    · rw [if_pos hroll] at hc
      obtain ⟨r, hr, hc⟩ := bind_eq_ok.mp hc
      obtain ⟨later, hlater, hpure⟩ := bind_eq_ok.mp hc
      cases hpure
      rw [groupsFrom_roll g hroll]
      exact .cons h.gives (ih (.once before hroll hr) hlater)
    · rw [if_neg hroll] at hc
      obtain ⟨e', he', hlater⟩ := bind_eq_ok.mp hc
      rw [groupsFrom_option g hroll]
      exact ih (h.withOption hroll he') hlater

/-- A list of arguments that is not empty fails with the error of the first argument that
breaks a rule. -/
theorem ofArgs_eq_error {args : List String} (hne : args ≠ []) (err : Error) :
    ofArgs args = .error err ↔ FirstBreak [] args err := by
  obtain ⟨arg, args, rfl⟩ := List.exists_cons_of_ne_nil hne
  rw [ofArgs]
  by_cases hroll : startsRoll arg
  · rw [if_pos hroll, bind_eq_error, firstBreak_cons (breaks_iff_ofText [] hroll),
      ← exists_and_right]
    refine or_congr Iff.rfl (exists_congr fun r => and_congr_right fun hr => ?_)
    exact continueWith_eq_error (InProgress.once [] hroll hr) args err
  · rw [if_neg hroll, firstBreak_cons (breaks_iff_early hroll)]
    simp

theorem ofArgs_eq_ok {args : List String} {c : RollCommand} (hc : ofArgs args = .ok c) :
    List.Forall₂ ArgGroup.Gives (argGroups args) c.entries := by
  cases args with
  | nil => cases hc
  | cons arg args =>
    rw [ofArgs] at hc
    by_cases hroll : startsRoll arg
    · rw [if_pos hroll] at hc
      obtain ⟨r, hr, hlater⟩ := bind_eq_ok.mp hc
      have hall := continueWith_eq_ok (InProgress.once [] hroll hr) hlater
      simpa [groupsFrom, argGroups, hroll] using hall
    · rw [if_neg hroll] at hc
      cases hc

/-- A list of arguments is a command just if it is acceptable. Each group of arguments gives
one entry then, in order; else the first argument that breaks a rule decides the error,
whatever follows it. -/
theorem ofArgs_grammar (args : List String) :
    ((∃ c, ofArgs args = .ok c) ↔ Acceptable args) ∧
      (∀ c, ofArgs args = .ok c → List.Forall₂ ArgGroup.Gives (argGroups args) c.entries) ∧
      (args ≠ [] → ∀ e, (ofArgs args = .error e ↔ FirstBreak [] args e) ∧
        (ofArgs args = .error e → ∀ more, ofArgs (args ++ more) = .error e)) := by
  refine ⟨?_, fun c => ofArgs_eq_ok, fun hne e => ⟨ofArgs_eq_error hne e, fun he more => ?_⟩⟩
  · rw [acceptable_iff]
    constructor
    · rintro ⟨c, hc⟩
      have hne : args ≠ [] := by
        rintro rfl
        cases hc
      refine ⟨hne, fun e hbreak => ?_⟩
      rw [(ofArgs_eq_error hne e).mpr hbreak] at hc
      cases hc
    · rintro ⟨hne, hno⟩
      cases hc : ofArgs args with
      | ok c => exact ⟨c, rfl⟩
      | error e => exact absurd ((ofArgs_eq_error hne e).mp hc) (hno e)
  · rw [ofArgs_eq_error hne] at he
    rw [ofArgs_eq_error (List.append_ne_nil_of_left_ne_nil hne more)]
    exact he.append more

end RollCommand

end DiceBot
