import DiceBot.CommandReading
import DiceBot.Proofs.NumeralReading
import Mathlib.Tactic.ByContra
import Mathlib.Tactic.Tauto

/-!
# Groups of arguments, and the arguments that break a rule

The arguments of a command fall into groups, each an argument that starts a roll with
its options behind it. Whether an argument breaks a rule depends on those before it
only, so a list of arguments is acceptable just if none of them does.
-/
namespace DiceBot

def Mode.name? : Mode → Option String
  | .normal => none
  | .advantage => some "advantage"
  | .disadvantage => some "disadvantage"

def IsModeArg (arg : String) (mode : Mode) : Prop :=
  arg ≠ "" ∧ ∃ name, mode.name? = some name ∧ arg.toList <+: name.toList

/-- The argument is `x` and digits that denote the number. -/
def IsRepeatArg (arg : String) (n : Nat) : Prop :=
  ∃ digits, IsDigits digits ∧ arg = "x" ++ digits ∧ decimal digits = n

/-- An argument that starts a roll, and the arguments behind it up to the next such one. -/
structure ArgGroup where
  roll : String
  options : List String

def argGroups : List String → List ArgGroup
  | [] => []
  | arg :: args =>
      if startsRoll arg then ⟨arg, args.takeWhile (¬ startsRoll ·)⟩ :: argGroups args
      else argGroups args

/-- The arguments make a command. -/
structure Acceptable (args : List String) : Prop where
  starts : ∃ arg later, args = arg :: later ∧ startsRoll arg
  rolls : ∀ arg ∈ args, startsRoll arg → ∃ r, Roll.ofText arg .normal = .ok r
  options : ∀ arg ∈ args, ¬ startsRoll arg →
    (∃ mode, IsModeArg arg mode) ∨ ∃ n, IsRepeatArg arg n ∧ 1 ≤ n ∧ n ≤ 4294967295
  modes : ∀ g ∈ argGroups args, ¬ ((∃ arg ∈ g.options, IsModeArg arg .advantage) ∧
    ∃ arg ∈ g.options, IsModeArg arg .disadvantage)

/-- Behind the arguments before it, the argument breaks a rule with this error. -/
inductive Breaks (before : List String) (arg : String) : Error → Prop
  | unreadable {e : Error} (hroll : startsRoll arg) (h : Roll.ofText arg .normal = .error e) :
      Breaks before arg e
  | early (hopt : ¬ startsRoll arg) (hb : ∀ a ∈ before, ¬ startsRoll a) :
      Breaks before arg (.ofWhole arg .optionBeforeRoll)
  | bothModes {earlier options : List String} {roll other : String} {mode mode' : Mode}
      (hb : before = earlier ++ roll :: options) (hroll : startsRoll roll)
      (hopts : ∀ a ∈ options, ¬ startsRoll a) (hmode : IsModeArg arg mode)
      (hother : other ∈ options) (hmode' : IsModeArg other mode') (hne : mode ≠ mode') :
      Breaks before arg (.ofWhole arg .bothModes)
  | repeats {digits : String} (hb : ∃ a ∈ before, startsRoll a) (hd : IsDigits digits)
      (harg : arg = "x" ++ digits) (hn : ¬ (1 ≤ decimal digits ∧ decimal digits ≤ 4294967295)) :
      Breaks before arg
        (.outOfRange .repeats (if decimal digits = 0 then "0" else digits))
  | unknown (hopt : ¬ startsRoll arg) (hb : ∃ a ∈ before, startsRoll a)
      (hmode : ∀ mode, ¬ IsModeArg arg mode) (hrepeat : ∀ n, ¬ IsRepeatArg arg n) :
      Breaks before arg (.ofWhole arg .unknownArgument)

/-- Read from the left behind those before them, the first of the arguments that breaks a
rule does so with this error. -/
inductive FirstBreak : List String → List String → Error → Prop
  | here {before later : List String} {arg : String} {e : Error} (h : Breaks before arg e) :
      FirstBreak before (arg :: later) e
  | later {before later : List String} {arg : String} {e : Error}
      (hno : ∀ e', ¬ Breaks before arg e') (h : FirstBreak (before ++ [arg]) later e) :
      FirstBreak before (arg :: later) e

theorem not_isModeArg_normal (arg : String) : ¬ IsModeArg arg .normal := by
  rintro ⟨-, name, hname, -⟩
  cases hname

theorem IsModeArg.advantage_or_disadvantage {arg : String} {mode : Mode} (h : IsModeArg arg mode) :
    IsModeArg arg .advantage ∨ IsModeArg arg .disadvantage := by
  cases mode with
  | normal => exact absurd h (not_isModeArg_normal arg)
  | advantage => exact .inl h
  | disadvantage => exact .inr h

/-- The names of the two modes have no letter in common at their starts. -/
theorem IsModeArg.unique {arg : String} {mode mode' : Mode} (h : IsModeArg arg mode)
    (h' : IsModeArg arg mode') : mode = mode' := by
  obtain ⟨hne, name, hname, hpre⟩ := h
  obtain ⟨-, name', hname', hpre'⟩ := h'
  obtain ⟨c, rest, hcs⟩ : ∃ c rest, arg.toList = c :: rest :=
    List.exists_cons_of_ne_nil (by simpa using hne)
  rw [hcs] at hpre hpre'
  cases mode <;> cases mode' <;> cases hname <;> cases hname' <;>
    simp_all [List.cons_prefix_cons]

theorem IsModeArg.not_startsRoll {arg : String} {mode : Mode} (h : IsModeArg arg mode) :
    ¬ startsRoll arg := by
  obtain ⟨hne, name, hname, hpre⟩ := h
  obtain ⟨c, rest, hcs⟩ : ∃ c rest, arg.toList = c :: rest :=
    List.exists_cons_of_ne_nil (by simpa using hne)
  rw [hcs] at hpre
  cases mode <;> cases hname <;> simp_all [List.cons_prefix_cons, startsRoll]

theorem IsRepeatArg.exists_cons {arg : String} {n : Nat} (h : IsRepeatArg arg n) :
    ∃ digits, arg.toList = 'x' :: digits := by
  obtain ⟨digits, -, rfl, -⟩ := h
  exact ⟨digits.toList, by simp⟩

theorem IsRepeatArg.not_startsRoll {arg : String} {n : Nat} (h : IsRepeatArg arg n) :
    ¬ startsRoll arg := by
  obtain ⟨digits, hcs⟩ := h.exists_cons
  simp [startsRoll, hcs]

theorem IsRepeatArg.unique {arg : String} {n n' : Nat} (h : IsRepeatArg arg n)
    (h' : IsRepeatArg arg n') : n = n' := by
  obtain ⟨digits, -, rfl, rfl⟩ := h
  obtain ⟨digits', -, heq, rfl⟩ := h'
  rw [(String.append_right_inj _).mp heq]

theorem IsModeArg.not_isRepeatArg {arg : String} {mode : Mode} {n : Nat}
    (h : IsModeArg arg mode) : ¬ IsRepeatArg arg n := by
  intro hrepeat
  obtain ⟨digits, hcs⟩ := hrepeat.exists_cons
  obtain ⟨hne, name, hname, hpre⟩ := h
  rw [hcs] at hpre
  cases mode <;> cases hname <;> simp [List.cons_prefix_cons] at hpre

theorem FirstBreak.append {before args : List String} {e : Error} (h : FirstBreak before args e)
    (more : List String) : FirstBreak before (args ++ more) e := by
  induction h with
  | here h => exact .here h
  | later hno h ih => exact .later hno ih

/-- No argument before the one that breaks a rule does so, and none behind it matters. -/
theorem FirstBreak.exists_first {before args : List String} {e : Error}
    (h : FirstBreak before args e) :
    ∃ first arg later, args = first ++ arg :: later ∧ Breaks (before ++ first) arg e ∧
      (∀ e', ¬ FirstBreak before first e') ∧
        ∀ more, FirstBreak before (first ++ arg :: more) e := by
  induction h with
  | @here before later arg e h =>
    refine ⟨[], arg, later, rfl, by simpa using h, ?_, fun more => .here h⟩
    rintro e' ⟨⟩
  | @later before later arg e hno h ih =>
    obtain ⟨first, arg', later', rfl, hbreak, hfirst, hmore⟩ := ih
    refine ⟨arg :: first, arg', later', rfl, by simpa using hbreak, fun e' he' => ?_,
      fun more => .later hno (hmore more)⟩
    cases he' with
    | here hbreak => exact hno e' hbreak
    | later _ he' => exact hfirst e' he'

theorem FirstBreak.exists_breaks {before args : List String} {e : Error}
    (h : FirstBreak before args e) :
    ∃ first arg later, args = first ++ arg :: later ∧ Breaks (before ++ first) arg e := by
  obtain ⟨first, arg, later, hargs, hbreak, -⟩ := h.exists_first
  exact ⟨first, arg, later, hargs, hbreak⟩

/-- Where some argument breaks a rule, there is a first one that does. -/
theorem exists_firstBreak {before first : List String} {arg : String} {e : Error}
    (h : Breaks (before ++ first) arg e) (later : List String) :
    ∃ e', FirstBreak before (first ++ arg :: later) e' := by
  induction first generalizing before with
  | nil => exact ⟨e, .here (by simpa using h)⟩
  | cons arg' first ih =>
    by_cases hbreak : ∃ e', Breaks before arg' e'
    · obtain ⟨e', he'⟩ := hbreak
      exact ⟨e', .here he'⟩
    · rw [not_exists] at hbreak
      rw [← List.singleton_append, ← List.append_assoc] at h
      obtain ⟨e', he'⟩ := ih h
      exact ⟨e', .later hbreak he'⟩

theorem mem_argGroups_cons {arg : String} {args : List String} {g : ArgGroup} :
    g ∈ argGroups (arg :: args) ↔
      startsRoll arg ∧ g = ⟨arg, args.takeWhile (¬ startsRoll ·)⟩ ∨ g ∈ argGroups args := by
  rw [argGroups]
  split <;> simp [*]

private theorem mem_argGroups (earlier later : List String) {roll : String}
    (hroll : startsRoll roll) :
    ⟨roll, later.takeWhile (¬ startsRoll ·)⟩ ∈ argGroups (earlier ++ roll :: later) := by
  induction earlier with
  | nil => exact mem_argGroups_cons.mpr (.inl ⟨hroll, rfl⟩)
  | cons arg earlier ih => exact mem_argGroups_cons.mpr (.inr ih)

private theorem exists_of_mem_argGroups {args : List String} {g : ArgGroup}
    (h : g ∈ argGroups args) :
    startsRoll g.roll ∧ (∀ arg ∈ g.options, ¬ startsRoll arg) ∧
      ∃ earlier later, args = earlier ++ g.roll :: (g.options ++ later) := by
  induction args with
  | nil => cases h
  | cons arg args ih =>
    obtain ⟨hroll, rfl⟩ | h := mem_argGroups_cons.mp h
    · have hopts := List.all_eq_true.mp (List.all_takeWhile (l := args) (p := (¬ startsRoll ·)))
      refine ⟨hroll, fun a ha => by simpa using hopts a ha, [], args.dropWhile (¬ startsRoll ·), ?_⟩
      simp only [List.takeWhile_append_dropWhile, List.nil_append]
    · obtain ⟨hstart, hopts, earlier, later, heq⟩ := ih h
      exact ⟨hstart, hopts, arg :: earlier, later, by rw [heq, List.cons_append]⟩

private theorem exists_startsRoll_before {first arg : String} {rest before later : List String}
    (hfirst : startsRoll first) (heq : first :: rest = before ++ arg :: later)
    (hopt : ¬ startsRoll arg) : ∃ a ∈ before, startsRoll a := by
  cases before with
  | nil =>
    cases heq
    exact absurd hfirst hopt
  | cons a before =>
    cases (List.cons.inj heq).1
    exact ⟨first, by simp, hfirst⟩

private theorem Acceptable.not_breaks {args before later : List String} {arg : String}
    (h : Acceptable args) (heq : args = before ++ arg :: later) (e : Error) :
    ¬ Breaks before arg e := by
  have hmem : arg ∈ args := by simp [heq]
  intro hbreak
  cases hbreak with
  | unreadable hroll hread =>
    obtain ⟨r, hr⟩ := h.rolls arg hmem hroll
    rw [hread] at hr
    cases hr
  | early hopt hb =>
    obtain ⟨first, rest, hargs, hfirst⟩ := h.starts
    obtain ⟨a, ha, hroll⟩ := exists_startsRoll_before hfirst (hargs.symm.trans heq) hopt
    exact hb a ha hroll
  | @bothModes earlier options roll other mode mode' hb hroll hopts hmode hother hmode' hne =>
    subst hb
    have hg := mem_argGroups earlier (options ++ arg :: later) hroll
    rw [List.takeWhile_append_of_pos (by simpa using hopts),
      List.takeWhile_cons_of_pos (by simpa using hmode.not_startsRoll)] at hg
    have hboth := h.modes _ (by rw [heq, List.append_assoc]; exact hg)
    have harg : arg ∈ options ++ arg :: later.takeWhile (¬ startsRoll ·) := by simp
    have hother := List.mem_append_left (arg :: later.takeWhile (¬ startsRoll ·)) hother
    cases mode with
    | normal => exact not_isModeArg_normal arg hmode
    | advantage =>
      cases mode' with
      | normal => exact not_isModeArg_normal other hmode'
      | advantage => exact hne rfl
      | disadvantage => exact hboth ⟨⟨arg, harg, hmode⟩, other, hother, hmode'⟩
    | disadvantage =>
      cases mode' with
      | normal => exact not_isModeArg_normal other hmode'
      | advantage => exact hboth ⟨⟨other, hother, hmode'⟩, arg, harg, hmode⟩
      | disadvantage => exact hne rfl
  | repeats hb hd harg hn =>
    have hrepeat : IsRepeatArg arg _ := ⟨_, hd, harg, rfl⟩
    obtain ⟨mode, hmode⟩ | ⟨n, hn', hle⟩ := h.options arg hmem hrepeat.not_startsRoll
    · exact hmode.not_isRepeatArg hrepeat
    · exact hn (hn'.unique hrepeat ▸ hle)
  | unknown hopt hb hmode hrepeat =>
    obtain ⟨mode, hm⟩ | ⟨n, hn, -⟩ := h.options arg hmem hopt
    · exact hmode mode hm
    · exact hrepeat n hn

private theorem acceptable_of_not_breaks {args : List String} (hne : args ≠ [])
    (h : ∀ before arg later, args = before ++ arg :: later → ∀ e, ¬ Breaks before arg e) :
    Acceptable args := by
  obtain ⟨first, rest, rfl⟩ := List.exists_cons_of_ne_nil hne
  have hfirst : startsRoll first := by
    by_contra hopt
    exact h [] first rest rfl _ (.early hopt (by simp))
  refine ⟨⟨first, rest, rfl, hfirst⟩, fun arg hmem hroll => ?_, fun arg hmem hopt => ?_, ?_⟩
  · obtain ⟨before, later, heq⟩ := List.append_of_mem hmem
    cases hread : Roll.ofText arg .normal with
    | ok r => exact ⟨r, rfl⟩
    | error e => exact absurd (.unreadable hroll hread) (h before arg later heq e)
  · obtain ⟨before, later, heq⟩ := List.append_of_mem hmem
    have hb := exists_startsRoll_before hfirst heq hopt
    by_contra hnone
    rw [not_or, not_exists, not_exists] at hnone
    by_cases hrepeat : ∃ n, IsRepeatArg arg n
    · obtain ⟨n, hn⟩ := hrepeat
      have hout := fun hle => hnone.2 n ⟨hn, hle⟩
      obtain ⟨digits, hd, harg, rfl⟩ := hn
      exact h before arg later heq _ (.repeats hb hd harg hout)
    · rw [not_exists] at hrepeat
      exact h before arg later heq _ (.unknown hopt hb hnone.1 hrepeat)
  · rintro g hg ⟨⟨a, ha, hadv⟩, d, hd, hdis⟩
    obtain ⟨hroll, hopts, earlier, later, heq⟩ := exists_of_mem_argGroups hg
    obtain ⟨options, options', hsplit⟩ := List.append_of_mem ha
    rw [hsplit] at hd hopts heq
    simp only [List.mem_append, List.mem_cons] at hd hopts
    obtain hd | rfl | hd := hd
    · exact h (earlier ++ g.roll :: options) a (options' ++ later) (by simp [heq]) _
        (.bothModes rfl hroll (fun o ho => hopts o (.inl ho)) hadv hd hdis (by simp))
    · cases hadv.unique hdis
    · obtain ⟨between, after, rfl⟩ := List.append_of_mem hd
      refine h (earlier ++ g.roll :: (options ++ a :: between)) d (after ++ later) (by simp [heq]) _
        (.bothModes rfl hroll (fun o ho => hopts o ?_) hdis (by simp) hadv (by simp))
      simp only [List.mem_append, List.mem_cons] at ho ⊢
      tauto

theorem acceptable_iff {args : List String} :
    Acceptable args ↔ args ≠ [] ∧ ∀ e, ¬ FirstBreak [] args e := by
  constructor
  · intro h
    obtain ⟨first, rest, hargs, -⟩ := h.starts
    refine ⟨by simp [hargs], fun e hbreak => ?_⟩
    obtain ⟨before, arg, later, heq, hbreak⟩ := hbreak.exists_breaks
    exact h.not_breaks heq e (by simpa using hbreak)
  · rintro ⟨hne, h⟩
    refine acceptable_of_not_breaks hne fun before arg later heq e hbreak => ?_
    rw [← List.nil_append before] at hbreak
    obtain ⟨e', hfirst⟩ := exists_firstBreak hbreak later
    exact h e' (heq ▸ hfirst)

end DiceBot
