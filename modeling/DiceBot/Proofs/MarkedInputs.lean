import DiceBot.Proofs.CommandGrammar
import DiceBot.Proofs.SyntaxErrorPlaces
import DiceBot.SavedRolls

/-!
# The inputs that syntax errors are about

What a syntax error marks can always be cut out of its input. The text that could not be read is
the input itself; where arguments could not be read, it is the first of them that spoils what the
ones before it still were. A notation has only characters of one byte, so that the last byte of
a text that breaks off is a character.
-/
namespace DiceBot

/-- The span lies in the text and its ends lie between characters, so that it cuts the text into
three parts. -/
structure Span.Cuts (span : Span) (text : String) : Prop where
  start_le_stop : span.start ≤ span.stop
  stop_le : span.stop ≤ text.utf8ByteSize
  start_valid : (String.Pos.Raw.mk span.start).IsValid text
  stop_valid : (String.Pos.Raw.mk span.stop).IsValid text
  parts : ∃ before cut after, text = before ++ cut ++ after ∧
    before.utf8ByteSize = span.start ∧ (before ++ cut).utf8ByteSize = span.stop

/-- A syntax error is about such an input, and its span can be cut out. Other errors mark no
input. -/
def Error.Cuts (P : String → Prop) (e : Error) : Prop :=
  ∀ input span fault, e = .invalidSyntax input span fault → P input ∧ span.Cuts input

theorem Span.cuts_append (before cut after : String) :
    Span.Cuts ⟨before.utf8ByteSize, (before ++ cut).utf8ByteSize⟩ (before ++ cut ++ after) where
  start_le_stop := by simp
  stop_le := by simp
  start_valid := by
    rw [String.Pos.Raw.isValid_iff_exists_append]
    exact ⟨before, cut ++ after, String.append_assoc, rfl⟩
  stop_valid := by
    rw [String.Pos.Raw.isValid_iff_exists_append]
    exact ⟨before ++ cut, after, rfl, rfl⟩
  parts := ⟨before, cut, after, rfl, rfl, rfl⟩

def OneByte (text : String) : Prop := ∀ c ∈ text.toList, c.utf8Size = 1

instance (text : String) : Decidable (OneByte text) := List.decidableBAll _ text.toList

theorem OneByte.append {a b : String} (ha : OneByte a) (hb : OneByte b) : OneByte (a ++ b) := by
  rw [OneByte, String.toList_append]
  exact List.forall_mem_append.mpr ⟨ha, hb⟩

theorem OneByte.of_append {a b : String} (h : OneByte (a ++ b)) : OneByte a ∧ OneByte b := by
  rw [OneByte, String.toList_append] at h
  exact List.forall_mem_append.mp h

private theorem utf8Size_of_isDigit {c : Char} (hc : c.isDigit) : c.utf8Size = 1 := by
  rw [Char.utf8Size_eq_one_iff]
  simp only [Char.isDigit, Bool.and_eq_true, decide_eq_true_eq] at hc
  exact UInt32.le_trans hc.2 (by decide)

theorem IsDigits.oneByte {digits : String} (h : IsDigits digits) : OneByte digits :=
  fun c hc => utf8Size_of_isDigit (List.all_eq_true.mp h.2 c hc)

private theorem oneByte_signText (negative : Bool) : OneByte (signText negative) := by
  cases negative <;> decide

theorem oneByte_letter : OneByte "d" := by
  decide

theorem IsToken.oneByte {token : String} (h : IsToken token) : OneByte token := by
  obtain ⟨sign, hsign, count, sides, hcount, hsides, rfl⟩ := h
  have hsign : OneByte sign := by
    simp only [List.mem_cons, List.not_mem_nil, or_false] at hsign
    rcases hsign with rfl | rfl | rfl <;> decide
  exact ((hsign.append hcount.oneByte).append oneByte_letter).append hsides.oneByte

private theorem Term.HasDigits.oneByte {t : Term} (h : t.HasDigits) : OneByte t.text := by
  rw [t.text_eq]
  cases t with
  | dice t =>
    exact (oneByte_signText _).append ((h.1.oneByte.append oneByte_letter).append h.2.oneByte)
  | modifier negative magnitude => exact (oneByte_signText _).append (IsDigits.oneByte h)

private theorem oneByte_writeTerms {terms : List Term} (h : ∀ t ∈ terms, t.HasDigits) :
    OneByte (writeTerms terms) := by
  induction terms with
  | nil => simp [OneByte]
  | cons t terms ih =>
    rw [List.forall_mem_cons] at h
    rw [writeTerms_cons]
    exact h.1.oneByte.append (ih h.2)

theorem IsExpression.oneByte {expression : String} (h : IsExpression expression) :
    OneByte expression := by
  obtain ⟨terms, hterms⟩ := h
  obtain ⟨-, hdigits, hwritten⟩ := expresses_iff.mp hterms
  have hall := oneByte_writeTerms hdigits
  rw [← hwritten, withSign] at hall
  exact hall.of_append.2

private theorem OneByte.cuts_last {text : String} (h : OneByte text) {start : Nat}
    (hstart : start + 1 = text.utf8ByteSize) : Span.Cuts ⟨start, text.utf8ByteSize⟩ text := by
  rcases List.eq_nil_or_concat text.toList with hnil | ⟨front, last, hlast⟩
  · rw [String.toList_eq_nil_iff.mp hnil] at hstart
    simp at hstart
  · rw [List.concat_eq_append] at hlast
    have htext : text = String.ofList front ++ String.singleton last := by
      simp [← String.toList_inj, hlast]
    have hbyte : last.utf8Size = 1 := h last (by simp [hlast])
    have hsize : text.utf8ByteSize = (String.ofList front).utf8ByteSize + 1 := by
      rw [htext, String.utf8ByteSize_append, String.utf8ByteSize_singleton, hbyte]
    obtain rfl : start = (String.ofList front).utf8ByteSize := by omega
    have hcuts := Span.cuts_append (String.ofList front) (String.singleton last) ""
    rwa [String.append_empty, ← htext] at hcuts

/-- Where a text fails to be a notation can be cut out of it. -/
theorem Marks.cuts {L : String → Prop} {text : String} {span : Span} (h : Marks L text span)
    (hL : ∀ text, L text → OneByte text) : span.Cuts text := by
  cases h with
  | @character start rest found htext hstart =>
    have hpush : start.push found = start ++ String.singleton found := by simp
    have hcuts := Span.cuts_append start (String.singleton found) rest
    rwa [← hpush, ← htext, String.utf8ByteSize_push] at hcuts
  | @ending start hbegins hstart =>
    rcases hstart with rfl | hstart
    · simpa using Span.cuts_append text "" ""
    · obtain ⟨more, hmore⟩ := hbegins
      exact (hL _ hmore).of_append.1.cuts_last hstart

namespace Error

variable {P Q : String → Prop}

theorem Cuts.mono {e : Error} (h : e.Cuts P) (hPQ : ∀ input, P input → Q input) : e.Cuts Q :=
  fun input span fault he => (h input span fault he).imp_left (hPQ input)

theorem cuts_invalidSyntax {input : String} {span : Span} (h : span.Cuts input) (fault : Fault) :
    (Error.invalidSyntax input span fault).Cuts (· = input) := by
  rintro _ _ _ ⟨⟩
  exact ⟨rfl, h⟩

theorem cuts_ofWhole (input : String) (fault : Fault) :
    (Error.ofWhole input fault).Cuts (· = input) :=
  cuts_invalidSyntax (by simpa using Span.cuts_append "" input "") fault

theorem cuts_of_not_isSyntax {e : Error} (h : e.isSyntax = false) : e.Cuts P := by
  rintro _ _ _ rfl
  cases h

end Error

section
variable {P Q : String → Prop}

private theorem FailsWith.cuts_mono {α : Type} {x : Except Error α} (h : FailsWith (Error.Cuts P) x)
    (hPQ : ∀ input, P input → Q input) : FailsWith (Error.Cuts Q) x :=
  fun e he => (h e he).mono hPQ

theorem Limit.read_cuts (l : Limit) (t : NumberType) (text : String) :
    FailsWith (Error.Cuts P) (l.read t text) := by
  rw [Limit.read]
  split
  · exact .error (Error.cuts_of_not_isSyntax rfl)
  next n _ =>
    split
    · refine FailsWith.bind ?_ fun _ _ => .ok _
      by_cases h : l.Admits n
      · rw [check_admitted h]
        exact .ok _
      · rw [check_refused h]
        exact .error (Error.cuts_of_not_isSyntax rfl)
    · exact .error (Error.cuts_of_not_isSyntax rfl)

theorem Die.ofTerm_cuts (t : DiceTerm) : FailsWith (Error.Cuts P) (ofTerm t) :=
  (Limit.read_cuts .dice .uint8 t.count).bind fun _ _ =>
    (Limit.read_cuts .sides .uint16 t.sides).bind fun _ _ => .ok _

private theorem Part.ofTerm_cuts (t : Term) : FailsWith (Error.Cuts P) (ofTerm t) := by
  cases t with
  | dice t => exact (Die.ofTerm_cuts t).bind fun d _ => .ok (Part.die d)
  | modifier negative magnitude =>
    exact (Limit.read_cuts .modifier .int32 _).bind fun _ _ => .ok _

end

theorem Die.ofText_cuts (token : String) : FailsWith (Error.Cuts (· = token)) (ofText token) := by
  by_cases htoken : IsToken token
  · obtain ⟨t, ht⟩ := isToken_iff.mp htoken
    rw [ofText, DiceTerm.ofText, ht]
    exact ofTerm_cuts t
  · obtain ⟨stop, hstop, hread⟩ := ofText_of_not_isToken htoken
    rw [hread]
    have hmarks := hstop.marks fun _ => isToken_iff
    exact .error (Error.cuts_invalidSyntax (hmarks.cuts fun _ => IsToken.oneByte) stop.fault)

namespace Roll

/-- Only where there are no dice, the whole notation is marked. -/
theorem ofParts_cuts (dice : List Die) (modifiers : List Int) (mode : Mode) :
    FailsWith (Error.Cuts fun input => dice = [] ∧ input = rollText dice modifiers)
      (ofParts dice modifiers mode) := by
  rw [ofParts]
  split
  next hdice =>
    exact .error ((Error.cuts_ofWhole _ _).mono fun input hinput => ⟨hdice, hinput⟩)
  · split
    · split
      · exact .error (Error.cuts_of_not_isSyntax rfl)
      · exact .ok _
    · exact .error (Error.cuts_of_not_isSyntax rfl)

theorem ofText_cuts (expression : String) (mode : Mode) :
    FailsWith (Error.Cuts (· = expression)) (ofText expression mode) := by
  by_cases hexpression : IsExpression expression
  · obtain ⟨terms, hterms⟩ := hexpression
    rw [ofText, termsOfExpression_eq_ok.mpr hterms, mapError_ok, ok_bind]
    split
    · exact (Part.ofTerms_failsWith fun t _ => Part.ofTerm_cuts t).bind fun parts _ =>
        ofPartsRead_failsWith (Error.cuts_ofWhole expression _) parts _ mode
    · exact .error (Error.cuts_of_not_isSyntax rfl)
  · obtain ⟨stop, hstop, hdigits, hread⟩ := ofText_of_not_isExpression hexpression mode
    rw [hread]
    refine .error (Error.cuts_invalidSyntax (Marks.cuts ?_ fun _ => IsExpression.oneByte) _)
    cases stop with
    | ended wanted =>
      obtain rfl := hdigits wanted rfl
      rw [pred_span_ended]
      exact .ending ((begins_iff fun _ => isExpression_iff).mpr hstop) (by omega)
    | unexpected found rest =>
      rw [pred_span_unexpected]
      exact hstop.marks fun _ => isExpression_iff
    | unsigned found => exact hstop.elim

end Roll

namespace RollCommand

/-- Read from the left, the argument is the first that spoils the arguments: those before it are
a command, if there are any, and behind them it breaks a rule, whatever follows. -/
def Spoils (args : List String) (arg : String) : Prop :=
  ∃ first later e, args = first ++ arg :: later ∧ (first ≠ [] → ∃ c, ofArgs first = .ok c) ∧
    Breaks first arg e ∧ ∀ more, ofArgs (first ++ arg :: more) = .error e

private theorem breaks_cuts {before : List String} {arg : String} {e : Error}
    (h : Breaks before arg e) :
    e.Cuts (· = arg) := by
  cases h with
  | unreadable hroll hread => exact Roll.ofText_cuts arg .normal _ hread
  | early => exact Error.cuts_ofWhole arg _
  | bothModes => exact Error.cuts_ofWhole arg _
  | repeats => exact Error.cuts_of_not_isSyntax rfl
  | unknown => exact Error.cuts_ofWhole arg _

/-- What makes the reading of arguments fail is the first of them that spoils them. -/
theorem exists_spoils {args : List String} {e : Error} (hne : args ≠ [])
    (h : ofArgs args = .error e) : ∃ arg, Spoils args arg ∧ e.Cuts (· = arg) := by
  obtain ⟨first, arg, later, rfl, hbreak, hfirst, hmore⟩ :=
    ((ofArgs_eq_error hne e).mp h).exists_first
  rw [List.nil_append] at hbreak
  refine ⟨arg, ⟨first, later, e, rfl, fun hne => ?_, hbreak, fun more => ?_⟩, breaks_cuts hbreak⟩
  · cases hread : ofArgs first with
    | ok c => exact ⟨c, rfl⟩
    | error e' => exact absurd ((ofArgs_eq_error hne e').mp hread) (hfirst e')
  · exact (ofArgs_eq_error (by simp) e).mpr (hmore more)

theorem ofArgs_cuts (args : List String) :
    FailsWith (Error.Cuts fun input => args = [] ∧ input = "" ∨ Spoils args input)
      (ofArgs args) := by
  intro e he
  by_cases hne : args = []
  · subst hne
    cases he
    exact (Error.cuts_ofWhole "" _).mono fun input hinput => .inl ⟨rfl, hinput⟩
  · obtain ⟨arg, hspoils, hcuts⟩ := exists_spoils hne he
    exact hcuts.mono fun input hinput => .inr (hinput ▸ hspoils)

end RollCommand

theorem SavedRolls.save_cuts (s : SavedRolls) (owner : Owner) (name : String)
    (args : List String) :
    FailsWith (Error.Cuts fun input => args = [] ∧ input = "" ∨ RollCommand.Spoils args input)
      (s.save owner name args) :=
  (RollCommand.ofArgs_cuts args).bind fun _ _ => .ok _

/-- Whatever is read, a syntax error marks what can be cut out of its input. The input is the
text that was read or, for parts of a roll, their notation. Among arguments it is the first that
spoils them, and it is empty if there are none. -/
theorem syntaxErrors_cut :
    (∀ token, FailsWith (Error.Cuts (· = token)) (Die.ofText token)) ∧
    (∀ expression mode, FailsWith (Error.Cuts (· = expression)) (Roll.ofText expression mode)) ∧
    (∀ dice modifiers mode, FailsWith (Error.Cuts (· = rollText dice modifiers))
      (Roll.ofParts dice modifiers mode)) ∧
    (∀ args, FailsWith
      (Error.Cuts fun input => args = [] ∧ input = "" ∨ RollCommand.Spoils args input)
      (RollCommand.ofArgs args)) ∧
    ∀ (s : SavedRolls) owner name args, FailsWith
      (Error.Cuts fun input => args = [] ∧ input = "" ∨ RollCommand.Spoils args input)
      (s.save owner name args) := by
  refine ⟨Die.ofText_cuts, Roll.ofText_cuts, fun dice modifiers mode => ?_,
    RollCommand.ofArgs_cuts, SavedRolls.save_cuts⟩
  exact (Roll.ofParts_cuts dice modifiers mode).cuts_mono fun input h => h.2

/-- The last character of the token has two bytes, and so has the argument that comes behind a
command. -/
theorem syntaxErrors_cut_umlaut :
    (Die.ofText "2ü" = .error (.invalidSyntax "2ü" ⟨1, 3⟩ .unexpected) ∧
      Span.Cuts ⟨1, 3⟩ "2ü") ∧
    RollCommand.ofArgs ["1d20", "x2", "ä"] =
        .error (.invalidSyntax "ä" ⟨0, 2⟩ .unknownArgument) ∧
      RollCommand.Spoils ["1d20", "x2", "ä"] "ä" ∧ Span.Cuts ⟨0, 2⟩ "ä" := by
  have htoken : Die.ofText "2ü" = .error (.invalidSyntax "2ü" ⟨1, 3⟩ .unexpected) := by
    decide +kernel
  have hargs : RollCommand.ofArgs ["1d20", "x2", "ä"] =
      .error (.invalidSyntax "ä" ⟨0, 2⟩ .unknownArgument) := by
    decide +kernel
  obtain ⟨-, hcut⟩ := syntaxErrors_cut.1 _ _ htoken _ _ _ rfl
  obtain ⟨hspoils, hcut'⟩ := syntaxErrors_cut.2.2.2.1 _ _ hargs _ _ _ rfl
  exact ⟨⟨htoken, hcut⟩, hargs, hspoils.resolve_left (by simp), hcut'⟩

end DiceBot
