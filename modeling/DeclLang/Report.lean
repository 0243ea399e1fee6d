import DeclLang.Report.Snippet

/-!
# Reports

A report tells a person about one error: its code, what is wrong, the source text in question with
a remark on it, and advice where there is any.  The reports on several errors have an empty line
between them.
-/

namespace DeclLang

namespace SyntaxError

/-- The lines of the report on an error in a source text. -/
def reportLines (fileName source : String) (e : SyntaxError) : List String :=
  [e.code, "", "  × " ++ e.message] ++ Snippet.lines fileName e.label source.toList ++
    e.help?.toList.map fun help => "  help: " ++ help

/-- The report on an error in a source text. -/
def report (fileName source : String) (e : SyntaxError) : String :=
  Lines.join (e.reportLines fileName source)

/-- The reports on errors in a source text. -/
def reports (fileName source : String) (errors : List SyntaxError) : String :=
  "\n".intercalate (errors.map (report fileName source))

end SyntaxError

end DeclLang
