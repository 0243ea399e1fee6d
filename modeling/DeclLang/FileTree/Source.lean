import DeclLang.FileTree

/-!
# Source files in a file tree

How commands read source texts, and which files of a directory hold them.  What a path leads to is
given by a `Lookup`, so that the same rules serve a `FileTree` and the files of a machine.

* `readSource` gives the text of a file, or the reason why there is none.
* `collectSources` lists the source files that a path stands for: the file itself, or those in the
  directory and below it.
-/

namespace DeclLang

/-- Tells what a path leads to. -/
abbrev Lookup := String → Except AccessError FileTree

/-! ## Reading -/

/-- Why there is no source text to be had from a path. -/
inductive SourceError where
  /-- The path leads nowhere. -/
  | inaccessible (cause : AccessError)
  /-- The file is over the size limit. -/
  | tooLarge (size : Nat)
  /-- The path leads to a directory. -/
  | isDirectory
  /-- The bytes of the file are no UTF-8 text. -/
  | notText
deriving DecidableEq

/-- What is said about a path without a source text. -/
def SourceError.message (path : String) : SourceError → String
  | inaccessible cause => "Cannot access file '" ++ path ++ "': " ++ cause.message
  | tooLarge size =>
    "Source file '" ++ path ++ "' is too large (" ++ toString size ++ " bytes, max " ++
      toString maxSourceSize ++ " bytes)"
  | isDirectory => "Error reading file '" ++ path ++ "': Is a directory (os error 21)"
  | notText => "Error reading file '" ++ path ++ "': stream did not contain valid UTF-8"

/-- The text of a file.  The size is looked at before anything else. -/
def FileContent.read : FileContent → Except SourceError String
  | oversized size _ => .error (.tooLarge size)
  | bytes data =>
    if maxSourceSize < data.size then .error (.tooLarge data.size)
    else match String.fromUTF8? data with
      | some text => .ok text
      | none => .error .notText

/-- The source text at a path. -/
def readSource (lookup : Lookup) (path : String) : Except SourceError String :=
  match lookup path with
  | .ok (.file content) => content.read
  | .ok (.directory _) => .error .isDirectory
  | .error cause => .error (.inaccessible cause)

/-! ## Collecting -/

/-- The files that hold source texts: those with the extension `sap`, and something before it. -/
def isSourceName (name : String) : Bool :=
  ".sap".toList.isSuffixOf name.toList && name != ".sap"

/-- The directories that are not searched for source files: hidden ones, and build output. -/
def isSkippedDirectory (name : String) : Bool :=
  name.toList.head? == some '.' || name == "target"

namespace FileTree

mutual

/-- The source files of a directory and below it, each with the names that lead to it. -/
def sources : FileTree → List (List String × FileContent)
  | file _ => []
  | directory entries => sourcesAmong entries

/-- The source files among some entries and below them. -/
def sourcesAmong : List (String × FileTree) → List (List String × FileContent)
  | [] => []
  | (name, file content) :: more =>
    (if isSourceName name then [([name], content)] else []) ++ sourcesAmong more
  | (name, directory entries) :: more =>
    (if isSkippedDirectory name then []
      else (sourcesAmong entries).map fun source => (name :: source.1, source.2)) ++
      sourcesAmong more

end

end FileTree

/-- Whether a row of names comes before another or is the same.  Names are compared one by one, and
a row comes before those that go on behind it. -/
def Path.isBefore : List String → List String → Bool
  | [], _ => true
  | _ :: _, [] => false
  | a :: as, b :: bs => (String.decidableLT a b).decide || a == b && isBefore as bs

/-- The source files that a path stands for, each with its path and its contents.  Those below a
directory are sorted by their names, segment by segment. -/
def collectSources (lookup : Lookup) (path : String) : List (String × FileContent) :=
  match lookup path with
  | .ok (.file content) => if isSourceName (Path.name path) then [(path, content)] else []
  | .ok (.directory entries) =>
    ((FileTree.sourcesAmong entries).mergeSort fun a b => Path.isBefore a.1 b.1).map fun source =>
      (Path.descend path source.1, source.2)
  | .error _ => []

end DeclLang
