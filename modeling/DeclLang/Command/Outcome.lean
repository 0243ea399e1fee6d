import DeclLang.Command.Arguments
import DeclLang.FileTree.Source
import DeclLang.Formatting
import DeclLang.Lexeme.Listing
import DeclLang.Report

/-!
# What commands do

A command looks at files and comes to an `Outcome`: what it prints, which files it writes, and its
exit code.  Commands on several files deal with each on its own, in order, and go on after a file
that failed; a failed file makes the command fail in the end.
-/

namespace DeclLang

/-- What comes of a command. -/
structure Outcome where
  /-- What is printed as the result. -/
  stdout : String := ""
  /-- What is printed about errors. -/
  stderr : String := ""
  /-- The exit code of the program. -/
  exitCode : Nat := 0
  /-- The files that are written, in order, each with its new text. -/
  writes : List (String × String) := []

namespace Outcome

/-- The concatenation of texts. -/
def concat (texts : List String) : String := texts.foldr (· ++ ·) ""

/-! ## Showing files -/

/-- What showing one file comes to. -/
structure Shown where
  /-- What is printed as the result. -/
  stdout : String
  /-- What is printed about errors. -/
  stderr : String
  /-- Whether the file could not be shown. -/
  failed : Bool

/-- Shows one file.  A file that is not the only one has its path above it. -/
def showFile (lookup : Lookup) (style : Style) (emit : Emit) (recover titled : Bool)
    (path : String) : Shown :=
  match readSource lookup path with
  | .error error => ⟨"", error.message path ++ "\n", true⟩
  | .ok source =>
    match renderSource style emit recover source with
    | .error errors => ⟨"", SyntaxError.reports path source errors, true⟩
    | .ok rendered => ⟨(if titled then "==> " ++ path ++ " <==\n" else "") ++ rendered, "", false⟩

/-- Shows files in order. -/
def ofParse (lookup : Lookup) (style : Style) (emit : Emit) (recover : Bool)
    (files : List String) : Outcome :=
  let shown := files.map (showFile lookup style emit recover (1 < files.length))
  let failures := shown.countP Shown.failed
  let verdict := if failures = 0 then ""
    else toString failures ++ " of " ++ toString files.length ++ " file(s) failed\n"
  { stdout := concat (shown.map Shown.stdout)
    stderr := concat (shown.map Shown.stderr) ++ verdict
    exitCode := if failures = 0 then 0 else 1 }

/-! ## Listing tokens -/

/-- Lists the tokens of a file, and reports its lexical errors beside them. -/
def ofLex (lookup : Lookup) (path : String) : Outcome :=
  match readSource lookup path with
  | .error error => { stderr := error.message path ++ "\n", exitCode := 1 }
  | .ok source =>
    let errors := (lexicalErrors source).map SyntaxError.lexical
    { stdout := tokenListing source
      stderr := SyntaxError.reports path source errors
      exitCode := if errors.isEmpty then 0 else 1 }

/-! ## Formatting files -/

/-- What formatting one file comes to. -/
inductive Verdict where
  /-- The file cannot be formatted, for the reason that is printed. -/
  | failed (report : String)
  /-- The file has its canonical form. -/
  | formatted
  /-- The file has another form. -/
  | differs (source canonical : String)
deriving DecidableEq

namespace Verdict

/-- Looks at one file. -/
def ofFile (style : Style) (path : String) (content : FileContent) : Verdict :=
  match content.read with
  | .error error => failed (error.message path ++ "\n")
  | .ok source =>
    match format style source with
    | .error error => failed (error.report path source)
    | .ok canonical => if source = canonical then formatted else differs source canonical

/-- Whether the file cannot be formatted. -/
def isFailure : Verdict → Bool
  | failed _ => true
  | _ => false

/-- Whether the file has a form that is not canonical. -/
def isDifference : Verdict → Bool
  | differs _ _ => true
  | _ => false

/-- What is printed about errors in the file. -/
def stderr : Verdict → String
  | failed report => report
  | _ => ""

/-- What is printed of the file.  The differences come before the verdict, if both are asked
for. -/
def stdout (check diff : Bool) (path : String) : Verdict → String
  | differs source canonical =>
    (if diff then "--- " ++ path ++ "\n" ++ lineDiff source canonical ++ "\n" else "") ++
      (if check then "Would reformat: " ++ path ++ "\n"
        else if diff then "" else "Formatted: " ++ path ++ "\n")
  | _ => ""

/-- What is written to the file. -/
def write? (path : String) : Verdict → Option (String × String)
  | differs _ canonical => some (path, canonical)
  | _ => none

end Verdict

/-- Formats the files that a path stands for.  With `check` or `diff` nothing is written, and a
file in another form than its canonical one makes the command fail. -/
def ofFmt (lookup : Lookup) (style : Style) (check diff : Bool) (path : String) : Outcome :=
  let files := collectSources lookup path
  let verdicts := files.map fun file => (file.1, Verdict.ofFile style file.1 file.2)
  let count := toString files.length
  let differences := verdicts.countP fun v => v.2.isDifference
  let failures := verdicts.countP fun v => v.2.isFailure
  let stdout := concat (verdicts.map fun v => v.2.stdout check diff v.1)
  let stderr := concat (verdicts.map fun v => v.2.stderr)
  if files.isEmpty then { stderr := "No .sap files found\n", exitCode := 1 }
  else if check || diff then
    if 0 < differences then
      { stdout := stdout
        stderr := stderr ++ "\n" ++ count ++ " file(s) " ++
          (if diff then "need formatting" else "would be reformatted") ++ "\n"
        exitCode := 1 }
    else if 0 < failures then { stdout := stdout, stderr := stderr, exitCode := 1 }
    else
      { stdout := stdout ++ "✓ " ++ count ++ " file(s) already formatted\n"
        stderr := stderr }
  else
    { stdout := stdout ++ "\n✓ " ++ toString differences ++ " file(s) formatted, " ++
        toString failures ++ " error(s)\n"
      stderr := stderr
      exitCode := if 0 < failures then 1 else 0
      writes := verdicts.filterMap fun v => v.2.write? v.1 }

end Outcome

namespace Command

/-- The paths that a command looks at. -/
def paths : Command → List String
  | view files => files
  | parse files _ _ _ => files
  | lex file => [file]
  | fmt path _ _ _ => [path]

/-- What comes of a command. -/
def outcome (lookup : Lookup) : Command → Outcome
  | view files =>
    if files.isEmpty then { stderr := "error: no input files\n", exitCode := 1 }
    else .ofParse lookup {} .tree false files
  | parse files emit recover indent =>
    .ofParse lookup { indentWidth := indent } emit recover files
  | lex file => .ofLex lookup file
  | fmt path check diff singleQuotes =>
    .ofFmt lookup { quoteStyle := if singleQuotes then .single else .double } check diff path

/-- What comes of a command on a file tree, and the tree after it. -/
def run (root : FileTree) (command : Command) : Outcome × FileTree :=
  let outcome := command.outcome root.find?
  (outcome, outcome.writes.foldl (fun tree w => tree.write w.1 (.ofText w.2)) root)

end Command

end DeclLang
