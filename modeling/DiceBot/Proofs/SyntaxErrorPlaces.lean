import DiceBot.Dice
import DiceBot.Proofs.NotationGrammar
import DiceBot.RollReading

/-!
# Where a syntax error is

A text that cannot be read begins like one that can, up to some character. Since every state of
a reading can be completed, this is the character at which the reading stops, and it is what the
error marks. Where the text only breaks off, the error is at its end.
-/
namespace DiceBot

def Begins (L : String → Prop) (text : String) : Prop := ∃ rest, L (text ++ rest)

/-- The longest beginning of the text that can be completed. -/
structure LongestStart (L : String → Prop) (text start : String) : Prop where
  starts : ∃ rest, text = start ++ rest
  begins : Begins L start
  longest : ∀ other rest, text = other ++ rest → Begins L other →
    other.utf8ByteSize ≤ start.utf8ByteSize

/-- The span is where the text fails to be one of the language. -/
inductive Marks (L : String → Prop) (text : String) : Span → Prop
  /-- The character behind the longest start, with all its bytes. -/
  | character {start rest : String} {found : Char} (htext : text = start.push found ++ rest)
      (hstart : LongestStart L text start) :
      Marks L text ⟨start.utf8ByteSize, start.utf8ByteSize + found.utf8Size⟩
  /-- The end of a text that can be completed, maybe with the last byte. -/
  | ending {start : Nat} (hbegins : Begins L text)
      (hstart : start = text.utf8ByteSize ∨ start + 1 = text.utf8ByteSize) :
      Marks L text ⟨start, text.utf8ByteSize⟩

private theorem Begins.of_append {L : String → Prop} {text rest : String}
    (h : Begins L (text ++ rest)) :
    Begins L text := by
  obtain ⟨more, hmore⟩ := h
  exact ⟨rest ++ more, by rwa [← String.append_assoc]⟩

/-- A start is the longest one if the next character spoils it. -/
theorem longestStart_of_not_begins {L : String → Prop} {start rest : String} {found : Char}
    (hbegins : Begins L start) (hstuck : ¬ Begins L (start.push found)) :
    LongestStart L (start.push found ++ rest) start := by
  have hpush : start.push found = start ++ String.singleton found := by simp
  refine ⟨⟨String.singleton found ++ rest, by rw [hpush, String.append_assoc]⟩, hbegins, ?_⟩
  intro other rest' htext hother
  have hchars : start.toList ++ [found] ++ rest.toList = other.toList ++ rest'.toList := by
    have hchars := congrArg String.toList htext
    rwa [String.toList_append, String.toList_append, String.toList_push] at hchars
  rcases List.append_eq_append_iff.mp hchars with ⟨more, hmore, -⟩ | ⟨more, hmore, -⟩
  · -- A longer start would contain the next character.
    have hlonger : other = start.push found ++ String.ofList more := by
      simp [← String.toList_inj, hmore]
    rw [hlonger] at hother
    exact absurd hother.of_append hstuck
  · rcases List.eq_nil_or_concat more with rfl | ⟨more, last, rfl⟩
    · have hsame : other = start.push found := by
        simp [← String.toList_inj, hmore]
      rw [hsame] at hother
      exact absurd hother hstuck
    · rw [List.concat_eq_append, ← List.append_assoc] at hmore
      have hshorter : start = other ++ String.ofList more := by
        simp [← String.toList_inj, (List.append_inj' hmore rfl).1]
      rw [hshorter, String.utf8ByteSize_append]
      exact Nat.le_add_right _ _

/-- Where a reading stops on the characters: either more of them can be read, or they begin
something that can be read up to the character found, and nothing with this character. -/
def StopsAt (Reads : List Char → Prop) (cs : List Char) : Stop → Prop
  | .ended _ => ∃ more, Reads (cs ++ more)
  | .unexpected found rest => ∃ before, cs = before ++ found :: rest ∧
      (∃ more, Reads (before ++ more)) ∧ ∀ rest', ¬ Reads (before ++ found :: rest')
  | .unsigned _ => False

/-- A first character that only leads on to another reading does not stop it. -/
theorem StopsAt.cons {Reads Reads' : List Char → Prop} {c : Char} {cs : List Char} {stop : Stop}
    (hreads : ∀ cs, Reads (c :: cs) ↔ Reads' cs) (h : StopsAt Reads' cs stop) :
    StopsAt Reads (c :: cs) stop := by
  cases stop with
  | ended wanted =>
    obtain ⟨more, hmore⟩ := h
    exact ⟨more, (hreads _).mpr hmore⟩
  | unexpected found rest =>
    obtain ⟨before, rfl, ⟨more, hmore⟩, hstuck⟩ := h
    exact ⟨c :: before, rfl, ⟨more, (hreads _).mpr hmore⟩, fun rest' =>
      mt (hreads _).mp (hstuck rest')⟩
  | unsigned found => exact h

theorem StopsAt.head {Reads : List Char → Prop} {c : Char} (hstart : ∃ more, Reads more)
    (hstuck : ∀ cs, ¬ Reads (c :: cs)) (cs : List Char) :
    StopsAt Reads (c :: cs) (.unexpected c cs) :=
  ⟨[], rfl, hstart, hstuck⟩

/-! No state of a reading is a dead end. -/

private theorem exists_termsFollow (scan : Scan) : ∃ more, TermsFollow scan more := by
  cases scan with
  | signed negative => exact ⟨['0'], _, rfl⟩
  | magnitude negative digits => exact ⟨[], _, rfl⟩
  | letter negative count => exact ⟨['0'], _, rfl⟩
  | sides negative count digits => exact ⟨[], _, rfl⟩

private theorem exists_diceFollow (scan : Scan) : ∃ more, DiceFollow scan more := by
  cases scan with
  | signed negative => exact ⟨['0', 'd', '0'], _, rfl⟩
  | magnitude negative digits => exact ⟨['d', '0'], _, rfl⟩
  | letter negative count => exact ⟨['0'], _, rfl⟩
  | sides negative count digits => exact ⟨[], _, rfl⟩

private theorem stopsAt_terms {scan : Scan} {cs : List Char} {stop : Stop}
    (h : readTermsFrom scan cs = .error stop) : StopsAt (TermsFollow scan) cs stop := by
  fun_induction readTermsFrom scan cs with
  | case1 scan t hterm => cases h
  | case2 scan hterm =>
    cases h
    exact exists_termsFollow scan
  | case3 scan c rest next hnext ih => exact (ih h).cons (termsFollow_next hnext)
  | case4 scan c rest t negative hsign hterm hnext ih =>
    exact (ih (map_eq_error.mp h)).cons (termsFollow_sign hterm hsign)
  | case5 scan c rest hnext hsign =>
    cases h
    exact .head (exists_termsFollow scan) (not_termsFollow hnext hsign) rest

private theorem stopsAt_dice {scan : Scan} {cs : List Char} {stop : Stop}
    (h : readDiceFrom scan cs = .error stop) : StopsAt (DiceFollow scan) cs stop := by
  fun_induction readDiceFrom scan cs with
  | case1 scan t hterm => cases h
  | case2 scan hterm =>
    cases h
    exact exists_diceFollow scan
  | case3 scan c rest next hnext ih => exact (ih h).cons (diceFollow_next hnext)
  | case4 scan c rest hnext =>
    cases h
    exact .head (exists_diceFollow scan) (not_diceFollow hnext) rest

private theorem stopsAt_readDice {cs : List Char} {stop : Stop} (h : readDice cs = .error stop) :
    StopsAt ReadsDice cs stop := by
  cases cs with
  | nil =>
    cases h
    exact ⟨['0', 'd', '0'], _, rfl⟩
  | cons c cs =>
    rw [readDice] at h
    cases hsign : negative? c with
    | some negative =>
      rw [hsign] at h
      exact (stopsAt_dice h).cons (readsDice_signed hsign)
    | none =>
      rw [hsign] at h
      change readDiceFrom (.signed false) (c :: cs) = _ at h
      rw [readDiceFrom] at h
      cases hnext : (Scan.signed false).next? c with
      | some next =>
        rw [hnext] at h
        exact (stopsAt_dice h).cons fun cs =>
          (readsDice_unsigned hsign cs).trans (diceFollow_next hnext cs)
      | none =>
        rw [hnext] at h
        cases h
        exact .head ⟨['0', 'd', '0'], _, rfl⟩
          (fun cs => mt (readsDice_unsigned hsign cs).mp (not_diceFollow hnext cs)) cs

private theorem readTermsFrom_ended {scan : Scan} {cs : List Char} {wanted : Wanted}
    (h : readTermsFrom scan cs = .error (.ended wanted)) : wanted = .digits := by
  fun_induction readTermsFrom scan cs with
  | case1 scan t hterm => cases h
  | case2 scan hterm =>
    cases h
    cases scan with
    | signed negative => rfl
    | magnitude negative digits => cases hterm
    | letter negative count => rfl
    | sides negative count digits => cases hterm
  | case3 scan c rest next hnext ih => exact ih h
  | case4 scan c rest t negative hsign hterm hnext ih => exact ih (map_eq_error.mp h)
  | case5 => cases h

private theorem exists_span_ended (text : String) (wanted : Wanted) :
    ∃ start, (Stop.ended wanted).span text = ⟨start, text.utf8ByteSize⟩ ∧
      (start = text.utf8ByteSize ∨ start + 1 = text.utf8ByteSize) := by
  cases wanted with
  | digits =>
    rw [Stop.span]
    split
    · exact ⟨_, rfl, .inl rfl⟩
    · exact ⟨_, rfl, by omega⟩
  | sign => exact ⟨_, rfl, .inl rfl⟩
  | signOrDigits => exact ⟨_, rfl, .inl rfl⟩
  | letter => exact ⟨_, rfl, .inl rfl⟩

section
variable {L : String → Prop} {Reads : List Char → Prop} {text : String}
  (hL : ∀ text, L text ↔ Reads text.toList)
include hL

theorem begins_iff : Begins L text ↔ ∃ more, Reads (text.toList ++ more) := by
  constructor
  · rintro ⟨rest, hrest⟩
    rw [hL, String.toList_append] at hrest
    exact ⟨rest.toList, hrest⟩
  · rintro ⟨more, hmore⟩
    refine ⟨String.ofList more, (hL _).mpr ?_⟩
    rwa [String.toList_append, String.toList_ofList]

/-- What a reading says of the place where it stops is where the text fails. -/
theorem StopsAt.marks {stop : Stop} (h : StopsAt Reads text.toList stop) :
    Marks L text (stop.span text) := by
  cases stop with
  | ended wanted =>
    obtain ⟨start, hspan, hstart⟩ := exists_span_ended text wanted
    rw [hspan]
    exact .ending ((begins_iff hL).mpr h) hstart
  | unexpected found rest =>
    obtain ⟨before, hchars, hbefore, hstuck⟩ := h
    have htext : text = (String.ofList before).push found ++ String.ofList rest := by
      simp [← String.toList_inj, hchars]
    have hsize : text.utf8ByteSize = (String.ofList before).utf8ByteSize + found.utf8Size +
        (String.ofList rest).utf8ByteSize := by
      rw [htext, String.utf8ByteSize_append, String.utf8ByteSize_push]
    have hspan : (Stop.unexpected found rest).span text =
        ⟨(String.ofList before).utf8ByteSize,
          (String.ofList before).utf8ByteSize + found.utf8Size⟩ := by
      rw [Stop.span, Span.mk.injEq]
      omega
    rw [hspan]
    refine .character htext ?_
    rw [htext]
    apply longestStart_of_not_begins
    · rw [begins_iff hL, String.toList_ofList]
      exact hbefore
    · rw [begins_iff hL, String.toList_push, String.toList_ofList]
      rintro ⟨more, hmore⟩
      rw [List.append_assoc] at hmore
      exact hstuck more hmore
  | unsigned found => exact h.elim

/-- A text that begins something is not stopped within. -/
theorem StopsAt.ended_of_begins {stop : Stop} (h : StopsAt Reads text.toList stop)
    (hbegins : Begins L text) : ∃ wanted, stop = .ended wanted := by
  cases stop with
  | ended wanted => exact ⟨wanted, rfl⟩
  | unexpected found rest =>
    obtain ⟨before, hchars, -, hstuck⟩ := h
    obtain ⟨more, hmore⟩ := (begins_iff hL).mp hbegins
    rw [hchars, List.append_assoc] at hmore
    exact absurd hmore (hstuck _)
  | unsigned found => exact h.elim

end

theorem utf8ByteSize_withSign (text : String) :
    (withSign text).utf8ByteSize = text.utf8ByteSize + 1 := by
  rw [withSign, String.utf8ByteSize_append, Nat.add_comm]
  rfl

/-- The sign put before an expression does not shift what is marked in it. -/
theorem pred_span_unexpected (text : String) (found : Char) (rest : List Char) :
    ((Stop.unexpected found rest).span (withSign text)).pred =
      (Stop.unexpected found rest).span text := by
  simp only [Stop.span, Span.pred, utf8ByteSize_withSign, Span.mk.injEq]
  omega

theorem pred_span_ended (text : String) :
    ((Stop.ended .digits).span (withSign text)).pred =
      ⟨text.utf8ByteSize - 1, text.utf8ByteSize⟩ := by
  have hlength : (withSign text).length = text.length + 1 := by
    rw [withSign, String.length_append, Nat.add_comm]
    rfl
  simp only [Stop.span, hlength, utf8ByteSize_withSign]
  split
  · have hempty : text = "" := String.length_eq_zero_iff.mp (by omega)
    rw [hempty]
    rfl
  · rfl

theorem ofText_of_not_isToken {token : String} (h : ¬ IsToken token) :
    ∃ stop, StopsAt ReadsDice token.toList stop ∧
      Die.ofText token = .error (.invalidSyntax token (stop.span token) stop.fault) := by
  cases hread : readDice token.toList with
  | ok t => exact absurd (isToken_iff.mpr ⟨t, hread⟩) h
  | error stop =>
    refine ⟨stop, stopsAt_readDice hread, ?_⟩
    rw [Die.ofText, DiceTerm.ofText, hread]
    rfl

/-- Where the reading of an expression stops, its syntax error is. -/
theorem ofText_of_stopped {expression : String} {stop : Stop}
    (h : readTermsFrom (.signed false) expression.toList = .error stop) (mode : Mode) :
    Roll.ofText expression mode = .error
      (.invalidSyntax expression (stop.span (withSign expression)).pred stop.fault) := by
  have hchars : (withSign expression).toList = '+' :: expression.toList := by simp [withSign]
  have hterms : readTerms ('+' :: expression.toList) =
      readTermsFrom (.signed false) expression.toList := rfl
  rw [Roll.ofText, termsOfExpression, termsOfText, hchars, hterms, h]
  rfl

theorem ofText_of_not_isExpression {expression : String} (h : ¬ IsExpression expression)
    (mode : Mode) :
    ∃ stop, StopsAt (TermsFollow (.signed false)) expression.toList stop ∧
      (∀ wanted, stop = .ended wanted → wanted = .digits) ∧
      Roll.ofText expression mode = .error
        (.invalidSyntax expression (stop.span (withSign expression)).pred stop.fault) := by
  cases hread : readTermsFrom (.signed false) expression.toList with
  | ok terms => exact absurd (isExpression_iff.mpr ⟨terms, hread⟩) h
  | error stop =>
    refine ⟨stop, stopsAt_terms hread, ?_, ofText_of_stopped hread mode⟩
    rintro wanted rfl
    exact readTermsFrom_ended hread

/-- What is not the notation of some dice, or of a roll, is a syntax error that marks the place
behind the longest part that can still become such a notation: the next character, or else the
end. In an expression that breaks off the last byte is marked. -/
theorem syntaxErrors_marked :
    (∀ token, ¬ IsToken token → ∃ span fault,
      Die.ofText token = .error (.invalidSyntax token span fault) ∧ Marks IsToken token span) ∧
    (∀ expression mode, ¬ IsExpression expression → ∃ span fault,
      Roll.ofText expression mode = .error (.invalidSyntax expression span fault) ∧
        Marks IsExpression expression span ∧
        (expression = "" → span = ⟨0, 0⟩) ∧
        (Begins IsExpression expression →
          span = ⟨expression.utf8ByteSize - 1, expression.utf8ByteSize⟩)) := by
  constructor
  · intro token htoken
    obtain ⟨stop, hstop, hread⟩ := ofText_of_not_isToken htoken
    exact ⟨_, _, hread, hstop.marks fun _ => isToken_iff⟩
  · intro expression mode hexpression
    obtain ⟨stop, hstop, hdigits, hread⟩ := ofText_of_not_isExpression hexpression mode
    refine ⟨_, _, hread, ?_⟩
    cases stop with
    | ended wanted =>
      obtain rfl := hdigits wanted rfl
      rw [pred_span_ended]
      refine ⟨.ending ((begins_iff fun _ => isExpression_iff).mpr hstop) (by omega), ?_,
        fun _ => rfl⟩
      rintro rfl
      rfl
    | unexpected found rest =>
      rw [pred_span_unexpected]
      refine ⟨hstop.marks fun _ => isExpression_iff, ?_, fun hbegins => ?_⟩
      · rintro rfl
        obtain ⟨before, hchars, -⟩ := hstop
        simp at hchars
      · obtain ⟨wanted, hwanted⟩ := hstop.ended_of_begins (fun _ => isExpression_iff) hbegins
        cases hwanted
    | unsigned found => exact hstop.elim

theorem syntaxErrors_marked_umlaut :
    ¬ IsToken "2ü6" ∧ ¬ IsExpression "1d20+ü" ∧
      Marks IsToken "2ü6" ⟨1, 3⟩ ∧ Marks IsExpression "1d20+ü" ⟨5, 7⟩ := by
  have htoken : ¬ IsToken "2ü6" := by
    intro h
    obtain ⟨t, ht⟩ := isToken_iff.mp h
    cases ht
  have hexpression : ¬ IsExpression "1d20+ü" := by
    intro h
    obtain ⟨terms, hterms⟩ := isExpression_iff.mp h
    cases hterms
  obtain ⟨span, fault, hread, hmarks⟩ := syntaxErrors_marked.1 "2ü6" htoken
  obtain ⟨span', fault', hread', hmarks', -⟩ :=
    syntaxErrors_marked.2 "1d20+ü" .normal hexpression
  have hspan : Die.ofText "2ü6" = .error (.invalidSyntax "2ü6" ⟨1, 3⟩ .unexpected) := by
    rfl
  have hspan' : Roll.ofText "1d20+ü" .normal =
      .error (.invalidSyntax "1d20+ü" ⟨5, 7⟩ .unexpected) := by
    rfl
  cases hread.symm.trans hspan
  cases hread'.symm.trans hspan'
  exact ⟨htoken, hexpression, hmarks, hmarks'⟩

end DiceBot
