import DiceBot.Errors
import DiceBot.Terms

/-!
# Reading terms character by character

Both readers walk over the characters once. The state of the walk is the part of
the current term read so far, and each character either extends it, ends it (a
sign, where more terms may follow) or stops the reading. A reading stops at the
first character with which the text no longer begins anything that can be read.
-/
namespace DiceBot

/-- Whether a sign is the minus sign. -/
def negative? : Char → Option Bool
  | '+' => some false
  | '-' => some true
  | _ => none

/-- How much of a term has been read. Digits that are held are at least one. -/
inductive Scan where
  | signed (negative : Bool)
  | magnitude (negative : Bool) (digits : String)
  | letter (negative : Bool) (count : String)
  | sides (negative : Bool) (count digits : String)
  deriving DecidableEq, Repr

namespace Scan

def next? : Scan → Char → Option Scan
  | .signed negative, c =>
      if c.isDigit then some (.magnitude negative ("".push c)) else none
  | .magnitude negative digits, c =>
      if c.isDigit then some (.magnitude negative (digits.push c))
      else if c = 'd' then some (.letter negative digits) else none
  | .letter negative count, c =>
      if c.isDigit then some (.sides negative count ("".push c)) else none
  | .sides negative count digits, c =>
      if c.isDigit then some (.sides negative count (digits.push c)) else none

def dice? : Scan → Option DiceTerm
  | .sides negative count digits => some ⟨negative, count, digits⟩
  | _ => none

def term? : Scan → Option Term
  | .magnitude negative digits => some (.modifier negative digits)
  | .sides negative count digits => some (.dice ⟨negative, count, digits⟩)
  | _ => none

def wanted : Scan → Wanted
  | .magnitude .. => .letter
  | _ => .digits

end Scan

/-- Where and why a reading stops: at the end of the text, or at a character with
`rest` behind it. -/
inductive Stop where
  | ended (wanted : Wanted)
  | unexpected (found : Char) (rest : List Char)
  | unsigned (found : Char)
  deriving DecidableEq, Repr

def readDiceFrom : Scan → List Char → Except Stop DiceTerm
  | scan, [] => match scan.dice? with
      | some term => .ok term
      | none => .error (.ended scan.wanted)
  | scan, c :: rest => match scan.next? c with
      | some scan => readDiceFrom scan rest
      | none => .error (.unexpected c rest)

/-- Reads one dice term, whose sign may be left out if it is plus. -/
def readDice : List Char → Except Stop DiceTerm
  | [] => .error (.ended .signOrDigits)
  | c :: rest => match negative? c with
      | some negative => readDiceFrom (.signed negative) rest
      | none => readDiceFrom (.signed false) (c :: rest)

def readTermsFrom : Scan → List Char → Except Stop (List Term)
  | scan, [] => match scan.term? with
      | some term => .ok [term]
      | none => .error (.ended scan.wanted)
  | scan, c :: rest => match scan.next? c, scan.term?, negative? c with
      | some scan, _, _ => readTermsFrom scan rest
      | none, some term, some negative =>
          (readTermsFrom (.signed negative) rest).map (term :: ·)
      | none, _, _ => .error (.unexpected c rest)

def readTerms : List Char → Except Stop (List Term)
  | [] => .error (.ended .sign)
  | c :: rest => match negative? c with
      | some negative => readTermsFrom (.signed negative) rest
      | none => .error (.unsigned c)

structure Misreading where
  span : Span
  fault : Fault
  deriving DecidableEq, Repr

def Stop.fault : Stop → Fault
  | .ended wanted => .missing wanted
  | .unexpected .. => .unexpected
  | .unsigned found => .unsigned found

/-- A character that stops the reading is marked as a whole. Where digits are
missing at the end, the last character is marked, or nothing behind a lone sign;
where anything else is missing, nothing at the end. -/
def Stop.span (text : String) : Stop → Span
  | .ended .digits =>
      let size := text.utf8ByteSize
      if text.length = 1 then ⟨size, size⟩ else ⟨size - 1, size⟩
  | .ended _ => ⟨text.utf8ByteSize, text.utf8ByteSize⟩
  | .unexpected found rest =>
      let stop := text.utf8ByteSize - (String.ofList rest).utf8ByteSize
      ⟨stop - found.utf8Size, stop⟩
  | .unsigned found => ⟨0, found.utf8Size⟩

def Stop.misreading (text : String) (s : Stop) : Misreading := ⟨s.span text, s.fault⟩

def DiceTerm.ofText (text : String) : Except Misreading DiceTerm :=
  (readDice text.toList).mapError (Stop.misreading text)

def termsOfText (text : String) : Except Misreading (List Term) :=
  (readTerms text.toList).mapError (Stop.misreading text)

/-- The first term of an expression has no sign and counts as added. -/
def withSign (expression : String) : String := "+" ++ expression

/-- The terms of an expression; places are those in the expression itself. -/
def termsOfExpression (expression : String) : Except Misreading (List Term) :=
  (termsOfText (withSign expression)).mapError fun m => { m with span := m.span.pred }

def Misreading.toError (input : String) (m : Misreading) : Error :=
  .invalidSyntax input m.span m.fault

end DiceBot
