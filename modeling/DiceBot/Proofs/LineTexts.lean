import DiceBot.Proofs.WrittenNumbers
import DiceBot.TextLines

/-!
# Texts of one line

A number is written with digits and a minus sign and lacks every other character, and what is put
together from texts that lack a character lacks it, too. A text without a line feed is a line, or
nothing. Lines written with a line feed between them are what the text is cut into at its line
feeds.
-/
namespace DiceBot

def Lacks (c : Char) (text : String) : Prop := c ∉ text.toList

instance (c : Char) (text : String) : Decidable (Lacks c text) :=
  inferInstanceAs (Decidable (¬ _))

namespace Lacks

variable {c : Char}

theorem append {a b : String} (ha : Lacks c a) (hb : Lacks c b) : Lacks c (a ++ b) := by
  simp only [Lacks, String.toList_append, List.mem_append, not_or]
  exact ⟨ha, hb⟩

private theorem intercalate {separator : String} {texts : List String} (hs : Lacks c separator)
    (h : ∀ text ∈ texts, Lacks c text) : Lacks c (separator.intercalate texts) := by
  induction texts with
  | nil => simp [Lacks]
  | cons text texts ih =>
    rw [List.forall_mem_cons] at h
    cases texts with
    | nil => simpa using h.1
    | cons text' texts =>
      rw [String.intercalate_cons_cons]
      exact (h.1.append hs).append (ih h.2)

end Lacks

theorem IsDigits.lacks {digits : String} {c : Char} (h : IsDigits digits)
    (hc : c.isDigit = false) : Lacks c digits := by
  intro hmem
  have hdigit := List.all_eq_true.mp h.2 _ hmem
  rw [hc] at hdigit
  cases hdigit

theorem lacks_sign {c : Char} (hminus : c ≠ '-') (negative : Bool) :
    Lacks c (if negative then "-" else "") := by
  cases negative <;> simp [Lacks, hminus]

theorem IsNumeral.lacks {text : String} {n : Int} {c : Char} (h : IsNumeral text n)
    (hc : c.isDigit = false) (hminus : c ≠ '-') : Lacks c text := by
  obtain ⟨negative, digits, hd, rfl, -⟩ := h
  exact (lacks_sign hminus negative).append (hd.lacks hc)

theorem lacks_toString_nat {c : Char} (hc : c.isDigit = false) (n : Nat) : Lacks c (toString n) :=
  (isDigits_toString n).lacks hc

theorem lacks_toString_int {c : Char} (hc : c.isDigit = false) (hminus : c ≠ '-') (n : Int) :
    Lacks c (toString n) :=
  (isNumeral_toString n).lacks hc hminus

def OneLine (text : String) : Prop := '\n' ∉ text.toList

instance (text : String) : Decidable (OneLine text) :=
  inferInstanceAs (Decidable (¬ _))

namespace OneLine

theorem append {a b : String} (ha : OneLine a) (hb : OneLine b) : OneLine (a ++ b) :=
  Lacks.append ha hb

private theorem intercalate {separator : String} {texts : List String} (hs : OneLine separator)
    (h : ∀ text ∈ texts, OneLine text) : OneLine (separator.intercalate texts) :=
  Lacks.intercalate hs h

end OneLine

theorem IsNumeral.oneLine {text : String} {n : Int} (h : IsNumeral text n) : OneLine text :=
  h.lacks (by decide) (by decide)

theorem oneLine_toString_nat (n : Nat) : OneLine (toString n) :=
  lacks_toString_nat (by decide) n

theorem oneLine_toString_int (n : Int) : OneLine (toString n) :=
  lacks_toString_int (by decide) (by decide) n

/-- Values that are each written on one line make one line with commas between them. -/
theorem oneLine_values {α : Type} [ToString α] (h : ∀ value : α, OneLine (toString value))
    (values : List α) : OneLine (", ".intercalate (values.map toString)) := by
  refine .intercalate (by decide) fun text htext => ?_
  obtain ⟨value, -, rfl⟩ := List.mem_map.mp htext
  exact h value

/-- A line feed between any two lines is where the lines are cut apart. -/
theorem splitOn_intercalate_lines {lines : List String} (hne : lines ≠ [])
    (h : ∀ line ∈ lines, OneLine line) :
    ("\n".intercalate lines).toList.splitOn '\n' = lines.map String.toList := by
  have hfeed : "\n".toList = ['\n'] := by simp
  rw [String.toList_intercalate, hfeed]
  apply List.splitOn_intercalate
  · intro cs hcs
    obtain ⟨line, hline, rfl⟩ := List.mem_map.mp hcs
    exact h line hline
  · simpa using hne

/-- A line that shows something up to its end. -/
structure IsTrimmedLine (line : String) : Prop where
  oneLine : OneLine line
  last : ∃ c, line.toList.getLast? = some c ∧ isBlank c = false

/-- The text is lines with a line feed behind each of them. -/
def WholeLines (text : String) : Prop := text = "" ∨ ∃ lines, text = lines ++ "\n"

private theorem trimEnd_append {line : String} (h : IsTrimmedLine line) (before : String) :
    trimEnd (before ++ (line ++ "\n")) = before ++ line := by
  obtain ⟨c, hlast, hblank⟩ := h.last
  obtain ⟨start, hline⟩ := List.getLast?_eq_some_iff.mp hlast
  have hfeed : isBlank '\n' = true := by decide
  have hchars : (before ++ (line ++ "\n")).toList.reverse =
      '\n' :: c :: (before.toList ++ start).reverse := by
    simp [hline]
  rw [trimEnd, hchars, List.dropWhile_cons_of_pos hfeed,
    List.dropWhile_cons_of_neg (by simp [hblank])]
  simp [← String.toList_inj, hline]

/-- What is not empty behind the last line feed is the last line. -/
theorem exists_linesOfPieces_append (pieces : List (List Char)) {last : List Char}
    (hlast : last ≠ []) : ∃ lines, linesOfPieces (pieces ++ [last]) = lines ++ [last] := by
  induction pieces with
  | nil => exact ⟨[], if_neg hlast⟩
  | cons piece pieces ih =>
    obtain ⟨lines, hlines⟩ := ih
    refine ⟨withoutReturn piece :: lines, ?_⟩
    rw [List.cons_append, linesOfPieces, hlines, List.cons_append]
    simp

theorem lastLine_append {before line : String} (hb : WholeLines before) (h : IsTrimmedLine line) :
    lastLine (before ++ (line ++ "\n")) = line := by
  have hne : line.toList ≠ [] := by
    obtain ⟨c, hlast, -⟩ := h.last
    rintro hnil
    simp [hnil] at hlast
  have hline : line.toList.splitOn '\n' = [line.toList] := List.splitOn_eq_singleton h.oneLine
  obtain ⟨pieces, hpieces⟩ :
      ∃ pieces, (before ++ line).toList.splitOn '\n' = pieces ++ [line.toList] := by
    rcases hb with rfl | ⟨lines, rfl⟩
    · exact ⟨[], by simpa using hline⟩
    · refine ⟨lines.toList.splitOn '\n', ?_⟩
      have hchars : (lines ++ "\n" ++ line).toList = lines.toList ++ '\n' :: line.toList := by
        simp
      rw [hchars, List.splitOn_append_cons_self, hline]
  obtain ⟨lines, hlines⟩ := exists_linesOfPieces_append pieces hne
  rw [lastLine, trimEnd_append h, textLines, hpieces, hlines, List.map_append, List.map_singleton,
    String.ofList_toList, List.getLastD_concat]

end DiceBot
