/-!
# File paths

A path is a list of names, which are bytes. Following the names one by one leads from
a place to a place, first of all within one tree of files. What lies outside of that
tree is not known.
-/
namespace DiceBot

abbrev FileName := List UInt8

def nameSeparator : UInt8 := 0x2F

def pathNames (path : List UInt8) : List FileName := path.splitOn nameSeparator

/-- The name that stands for the directory it is in, as the empty name does too. -/
def hereName : FileName := [0x2E]

def aboveName : FileName := [0x2E, 0x2E]

def maxNameLength : Nat := 255

def maxPathLength : Nat := 4095

def isHere (name : FileName) : Bool := name = [] || name = hereName

/-- Whether a name can be given to something in a directory. -/
def isProperName (name : FileName) : Bool := !isHere name && name != aboveName

/-- A place, by the names that lead to it from the top of the tree or from a directory
outside of the tree. -/
structure FilePlace where
  inTree : Bool
  names : List FileName
  deriving DecidableEq

namespace FilePlace

def top : FilePlace := ⟨true, []⟩

def outside : FilePlace := ⟨false, []⟩

def below (p : FilePlace) (name : FileName) : FilePlace := { p with names := p.names ++ [name] }

/-- The directory above; the one above the top is outside of the tree. -/
def above (p : FilePlace) : FilePlace :=
  if p.names = [] then outside else { p with names := p.names.dropLast }

/-- Where the names of a link start, if the link is in this directory: a target that
starts with a separator starts outside of the tree. -/
def targetStart (dir : FilePlace) (target : List UInt8) : FilePlace :=
  if target.head? = some nameSeparator then outside else dir

end FilePlace

end DiceBot
