import DeclLang.Command.Outcome

/-!
# The program

Connects commands with the files of the machine: loads what a command looks at, and then prints
and writes what the command comes to.
-/

namespace DeclLang

/-- What the program is called with. -/
def usage : String :=
  "Usage: sapling [FILES]...\n" ++
  "       sapling parse [--emit tree|source|json] [--recover] [--indent N] FILES...\n" ++
  "       sapling lex FILE\n" ++
  "       sapling fmt [--check] [--diff] [--single-quotes] [PATH]\n"

/-- Loads a file or a directory.  Of a directory only the part is loaded that holds source files
to be collected, and nothing at all if `deep` is not set. -/
partial def load (deep : Bool) (path : String) : IO FileTree := do
  let place := (← IO.currentDir) / path
  let info ← place.metadata
  if info.type == .dir then
    if !deep then return .directory []
    let entries ← (← place.readDir).toList.filterMapM fun entry => do
      let isDirectory ← entry.path.isDir
      if isDirectory && isSkippedDirectory entry.fileName then return none
      if !isDirectory && !isSourceName entry.fileName then return none
      return some (entry.fileName, ← load deep (Path.child path entry.fileName))
    return .directory entries
  else
    let size := info.byteSize.toNat
    if h : maxSourceSize < size then return .file (.oversized size h)
    return .file (.bytes (← IO.FS.readBinFile place))

/-- Loads what a path leads to, or tells why it leads nowhere. -/
def loadPath (deep : Bool) (path : String) : IO (Except AccessError FileTree) := do
  if path == "" then return .error .notFound
  try return .ok (← load deep path)
  catch error =>
    match error with
    | .inappropriateType .. => return .error .notADirectory
    | _ => return .error .notFound

/-- Whether a command looks below directories. -/
def Command.isDeep : Command → Bool
  | fmt _ _ _ _ => true
  | _ => false

/-- Does what a command comes to, and gives the exit code. -/
def perform (command : Command) : IO UInt32 := do
  let found ← command.paths.mapM fun path => return (path, ← loadPath command.isDeep path)
  let outcome := command.outcome fun path => (found.lookup path).getD (.error .notFound)
  for (path, text) in outcome.writes do
    IO.FS.writeFile path text
  IO.print outcome.stdout
  IO.eprint outcome.stderr
  return outcome.exitCode.toUInt32

/-- Says why a command line asks for nothing that can be done, and gives the exit code. -/
def refuse (error : UsageError) : IO UInt32 := do
  match error with
  | .versionAsked => IO.println ("sapling " ++ languageVersion)
  | .helpAsked => IO.print usage
  | _ => IO.eprint usage
  return error.exitCode.toUInt32

end DeclLang

def main (arguments : List String) : IO UInt32 :=
  match DeclLang.Command.ofArguments arguments with
  | .ok command => DeclLang.perform command
  | .error error => DeclLang.refuse error
