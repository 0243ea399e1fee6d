import DeclLang.Grammar.Parse
import DeclLang.LineDiff
import DeclLang.Printer.Canonical

/-!
# Formatting

Bringing a source text into its canonical form: the text is parsed and printed again.  Comments
are not part of the tree and get lost.  A text that does not parse is not formatted.
-/

namespace DeclLang

/-- The canonical form of a source text. -/
def format (style : Style) (source : String) : Except SyntaxError String :=
  (parse source).map (SourceFile.canonical style)

/-- Whether a source text has its canonical form in the default style. -/
def isFormatted (source : String) : Except SyntaxError Bool :=
  (format {} source).map fun formatted => source == formatted

/-- What formatting would change in a source text, if it would change anything. -/
def formatDiff (style : Style) (source : String) : Except SyntaxError (Option String) :=
  (format style source).map fun formatted =>
    if source = formatted then none else some (lineDiff source formatted)

end DeclLang
