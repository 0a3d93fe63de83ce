import DiceBot.FilePaths

/-!
# Trees of files

A tree holds the files, directories and symbolic links below its top directory, each
under its names. Paths are followed name by name, through links where they lead, both
to read and to add.
-/
namespace DiceBot

inductive FileNode where
  | file (content : ByteArray)
  | directory
  | link (target : List UInt8)

structure DirectoryEntry where
  name : FileName
  node : FileNode

inductive FileFault where
  | notFound
  | notADirectory
  | tooManyLinks
  | nameTooLong
  | nulInPath
  | notText
  deriving DecidableEq, Repr

def FileFault.message : FileFault → String
  | .notFound => "No such file or directory (os error 2)"
  | .notADirectory => "Not a directory (os error 20)"
  | .tooManyLinks => "Too many levels of symbolic links (os error 40)"
  | .nameTooLong => "File name too long (os error 36)"
  | .nulInPath => "file name contained an unexpected NUL byte"
  | .notText => "stream did not contain valid UTF-8"

inductive PathEnd where
  /-- To something that is there. -/
  | found (place : FilePlace)
  /-- To a name in a directory where that name is still free. -/
  | free (place : FilePlace)

/-- Everything below the top directory, by its names, in the order in which it was made. -/
structure FileTree where
  nodes : List (List FileName × FileNode)

namespace FileTree

def empty : FileTree := ⟨[]⟩

/-- What is at a place. Outside of the tree nothing but a directory is known. -/
def node? (t : FileTree) (place : FilePlace) : Option FileNode :=
  if place.names = [] then some .directory
  else if place.inTree then t.nodes.lookup place.names
  else none

def isDirectory (t : FileTree) (place : FilePlace) : Bool :=
  match t.node? place with
  | some .directory => true
  | _ => false

/-- Follows names from a place, through at most `links` links. -/
def follow (t : FileTree) (links : Nat) (place : FilePlace) (names : List FileName) :
    Except FileFault PathEnd :=
  match names with
  | [] => .ok (.found place)
  | name :: rest =>
      if !t.isDirectory place then .error .notADirectory
      else if isHere name then t.follow links place rest
      else if name = aboveName then t.follow links place.above rest
      else if maxNameLength < name.length then .error .nameTooLong
      else match t.node? (place.below name), links with
        | none, _ => if rest = [] then .ok (.free (place.below name)) else .error .notFound
        | some (.link _), 0 => .error .tooManyLinks
        | some (.link target), links + 1 =>
            t.follow links (place.targetStart target) (pathNames target ++ rest)
        | some _, links => t.follow links (place.below name) rest
termination_by (links, names.length)

def maxLinks : Nat := 40

def locate (t : FileTree) (names : List FileName) : Except FileFault PathEnd :=
  t.follow maxLinks .top names

def resolve (t : FileTree) (names : List FileName) : Except FileFault FilePlace := do
  match ← t.locate names with
  | .found place => pure place
  | .free _ => throw .notFound

/-! ## Adding -/

def put (t : FileTree) (place : FilePlace) (node : FileNode) : FileTree :=
  if !place.inTree then t
  else if (t.nodes.lookup place.names).isSome then
    ⟨t.nodes.map fun (names, old) => (names, if names = place.names then node else old)⟩
  else ⟨t.nodes ++ [(place.names, node)]⟩

/-- Gives a name to something new in the directory under the names `dir`; where that is
no directory or has the name already, all stays as it is. -/
def make (t : FileTree) (dir : List FileName) (name : FileName) (node : FileNode) : FileTree :=
  match t.resolve dir with
  | .ok place =>
      let new := place.below name
      if t.isDirectory place && isProperName name && (t.node? new).isNone then t.put new node
      else t
  | .error _ => t

/-- Makes the directories that are missing on the way along names from the directory
under the names `dir`. -/
def makeDirectories (t : FileTree) (dir : List FileName) : List FileName → FileTree
  | [] => t
  | name :: rest => (t.make dir name .directory).makeDirectories (dir ++ [name]) rest

/-- Writes a file under names from the top. It gets the content if it is there already,
and links lead to the file that is written. -/
def write (t : FileTree) (names : List FileName) (content : ByteArray) : FileTree :=
  match t.locate names with
  | .ok (.free place) => t.put place (.file content)
  | .ok (.found place) => if t.isDirectory place then t else t.put place (.file content)
  | .error _ => t

/-- Adds something under a path, and the directories that are missing on the way to it.
What the path cannot lead to is not added. -/
def add (t : FileTree) (path : List UInt8) (node : FileNode) : FileTree :=
  let names := pathNames path
  let dir := names.dropLast
  match node with
  | .directory => t.makeDirectories [] names
  | .file content => (t.makeDirectories [] dir).write names content
  | .link _ => (t.makeDirectories [] dir).make dir (names.getLastD []) node

/-! ## Reading -/

def entriesOf (t : FileTree) (dir : FilePlace) : List DirectoryEntry :=
  t.nodes.filterMap fun (names, node) =>
    if dir.inTree && names.dropLast = dir.names then names.getLast?.map (⟨·, node⟩) else none

def entries (t : FileTree) (path : List UInt8) : Except FileFault (List DirectoryEntry) := do
  if 0 ∈ path then throw .nulInPath
  if maxPathLength < path.length then throw .nameTooLong
  let dir ← t.resolve (pathNames path)
  if t.isDirectory dir then pure (t.entriesOf dir) else throw .notADirectory

end FileTree

end DiceBot
