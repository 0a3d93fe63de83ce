import DiceBot.BlankCharacters
import DiceBot.ByteDecoding
import DiceBot.FileTrees
import Std.Data.HashMap

/-!
# Display texts

The texts that requests are answered with have keys. A directory can replace the
built-in ones: each regular file in it is the text under the file's name.
-/
namespace DiceBot

/-- Key of the text that answers a request with a syntax error. -/
def syntaxKey : String := "roll_syntax"

def helpKey : String := "help"

def aboutKey : String := "about"

structure Texts where
  byKey : Std.HashMap String String

namespace Texts

def get? (t : Texts) (key : String) : Option String := t.byKey[key]?

/-- The text under the key, or the key itself where there is none. -/
def textOf (t : Texts) (key : String) : String := (t.get? key).getD key

def builtIn : Texts where
  byKey := Std.HashMap.ofList [
    (syntaxKey, "Syntax: `/roll <rolls>d<die>+[roll/modifier] [dis/adv] [x<qty>]`"),
    (helpKey, "Roll some dice with /roll, for example:\n`/roll 1d20`\n`/roll 1d20+2d8-4`\n"
      ++ "`/roll 1d6+2 adv x2`\n`/roll 1d20 dis 2d4+6`\nSave a roll with `/save <name> <roll>`, "
      ++ "roll it again with `/use <name>`, and remove it with `/delete <name>`."),
    (aboutKey, "A dice-rolling bot. Use /roll to roll some dice, or /help for more.")]

/-- The texts with the one of a directory entry. Only regular files have a text, which
is their content without blanks around it. -/
def add (t : Texts) (e : DirectoryEntry) : Except FileFault Texts :=
  match e.node with
  | .file content => match String.fromUTF8? content with
      | some text => .ok ⟨t.byKey.insert (decodeName e.name) (trim text)⟩
      | none => .error .notText
  | _ => .ok t

/-- The built-in texts, replaced by those of directory entries in their order. -/
def ofEntries (entries : List DirectoryEntry) : Except FileFault Texts :=
  entries.foldlM add builtIn

def load (tree : FileTree) (path : List UInt8) : Except FileFault Texts := do
  ofEntries (← tree.entries path)

end Texts

end DiceBot
