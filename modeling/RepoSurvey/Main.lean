import RepoSurvey.CommandLine

/-!
# The program

The arguments are those of `Command.ofArguments?`. Standard input lists the files of the
repository, one path on each line; a path that leads to no readable file is passed over. The
settings are taken from the environment.
-/

namespace RepoSurvey.Program

/-- The lines of a stream up to its end, after those that were read before. -/
partial def readLines (input : IO.FS.Stream) (before : Array String) : IO (List String) := do
  let line ← input.getLine
  if line.isEmpty then return before.toList
  readLines input (before.push (line.trimAsciiEnd.toString))

/-- The disk with one more file, read from where the line says. -/
def addFile (disk : Disk) (line : String) : IO Disk := do
  try
    let bytes ← IO.FS.readBinFile line
    return disk.write (Path.ofText line).normalize.segments bytes.toList
  catch _ => return disk

/-- The variables of the settings that are set. -/
def environment : IO (Table String) := do
  let found ← Config.settings.mapM fun s => do
    return (← IO.getEnv s.variableName).map fun value => (s.variableName, value)
  return found.filterMap id

end RepoSurvey.Program

open RepoSurvey in
def main (arguments : List String) : IO UInt32 := do
  let listing ← Program.readLines (← IO.getStdin) #[]
  let disk ← listing.foldlM Program.addFile { tree := .directory [] }
  match Command.runArguments disk (← Program.environment) arguments with
  | .ok output =>
    IO.print output.printed
    return output.exit.toUInt32
  | .error e =>
    IO.eprintln e.message
    return 1
