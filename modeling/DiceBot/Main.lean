import DiceBot.CommandLines
import DiceBot.ProgramOptions

/-!
# The program

Only what the library cannot do by itself happens here: the environment, the directory
of texts, the random seed and the lines of input are fetched, and replies are printed.
-/
namespace DiceBot.Main

/-- Sets the options that are not given from the environment. -/
def withEnvironment (options : ProgramOptions) : IO (Option ProgramOptions) := do
  let mut options := options
  for name in OptionName.all do
    unless options.gives name do
      if let some value ← IO.getEnv name.variableName then
        match options.set? name value with
        | some more => options := more
        | none => return none
  return some options

/-- An entry of a directory on disk; only regular files are read. -/
def readEntry (e : IO.FS.DirEntry) : IO DirectoryEntry := do
  let node ← match (← e.path.symlinkMetadata).type with
    | .file => pure (FileNode.file (← IO.FS.readBinFile e.path))
    | .dir => pure .directory
    | _ => pure (.link [])
  return ⟨e.fileName.toUTF8.toList, node⟩

def readTexts (path : String) : IO (Except FileFault Texts) := do
  let dir : IO.FS.DirEntry := { root := path, fileName := "" }
  try
    let entries ← (← dir.path.readDir).toList.mapM readEntry
    return Texts.ofEntries entries
  catch
    | .noFileOrDirectory .. => return .error .notFound
    | .inappropriateType .. => return .error .notADirectory
    | .invalidArgument _ 36 _ => return .error .nameTooLong
    | .invalidArgument _ 40 _ => return .error .tooManyLinks
    | e => throw e

def converse (bot : Bot Seeded) : IO Unit := do
  let input ← IO.getStdin
  let output ← IO.getStdout
  let mut bot := bot
  let mut line ← input.getLine
  while line ≠ "" do
    match (textLines line).mapM answerLine bot with
    | .ok replies next =>
        output.putStr (String.join replies)
        output.flush
        bot := next
    line ← input.getLine

def randomSeed : IO UInt64 := do
  let bytes ← IO.getRandomBytes 8
  return bytes.foldl (fun seed byte => seed * 256 + byte.toUInt64) 0

def run (options : ProgramOptions) : IO UInt32 := do
  let seed ← match options.seed with
    | some seed => pure seed
    | none => randomSeed
  let textsPath := options.textsPath.getD ""
  let texts ← match options.textsPath with
    | some path => readTexts path
    | none => pure (.ok Texts.builtIn)
  match texts, options.args with
  | .ok texts, [] =>
      converse (Bot.new ⟨seed⟩ texts options.maxRolls)
      return 0
  | _, args =>
      let start : CommandLine Seeded := ⟨⟨seed⟩, options.maxRolls, textsPath, texts, args, ""⟩
      match start.run start.source with
      | .ok ending _ =>
          IO.print ending.output
          IO.eprint ending.errors
          return ending.exitCode

end DiceBot.Main

/-- Rolls the command in the arguments, or answers the lines of the input. -/
def main (args : List String) : IO UInt32 := do
  let given := DiceBot.ProgramOptions.empty.read? args
  match ← given.bindM DiceBot.Main.withEnvironment with
  | some options => DiceBot.Main.run options
  | none =>
      IO.eprintln "usage: rollbot [--seed N] [--max-rolls N] [--texts DIR] [--] [ROLL...]"
      return 2
