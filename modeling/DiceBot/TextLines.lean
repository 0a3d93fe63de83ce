import DiceBot.BlankCharacters

/-!
# Lines of text

A line ends at a line feed, or at the end of the text. A carriage return just before
a line feed belongs to the end of the line and not to the line.
-/
namespace DiceBot

/-- A terminated line without the carriage return that may end it. -/
def withoutReturn (line : List Char) : List Char :=
  if line.getLast? = some '\r' then line.dropLast else line

/-- The last of the pieces between line feeds is a line only if it is not empty. -/
def linesOfPieces : List (List Char) → List (List Char)
  | [] => []
  | [last] => if last = [] then [] else [last]
  | line :: rest => withoutReturn line :: linesOfPieces rest

def textLines (text : String) : List String :=
  (linesOfPieces (text.toList.splitOn '\n')).map String.ofList

/-- The last line of a text when blanks at its end are left out. -/
def lastLine (text : String) : String := (textLines (trimEnd text)).getLastD ""

end DiceBot
