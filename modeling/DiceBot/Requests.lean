import DiceBot.BlankCharacters

/-!
# Requests

A line of chat is a request. Its first word, which may start with a slash, names what
is asked for, and the other words are the arguments.
-/
namespace DiceBot

inductive Request where
  | roll (args : List String)
  | save (args : List String)
  | use (args : List String)
  | delete (args : List String)
  | help
  | about
  | unknown (command : String)
  deriving DecidableEq, Repr

/-- A word without the slash that it may start with. -/
def withoutSlash (word : String) : String :=
  match word.toList with
  | '/' :: rest => String.ofList rest
  | _ => word

namespace Request

def ofCommand (command : String) (args : List String) : Request :=
  match command with
  | "roll" => .roll args
  | "save" => .save args
  | "use" => .use args
  | "delete" => .delete args
  | "help" => .help
  | "about" => .about
  | "start" => .about
  | _ => .unknown command

def ofWords? : List String → Option Request
  | [] => none
  | word :: args => some (ofCommand (withoutSlash word) args)

/-- What the line asks for; a blank line asks for nothing. -/
def ofLine? (line : String) : Option Request := ofWords? (words line)

end Request

end DiceBot
