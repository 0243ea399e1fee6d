import DeclLang.Lexeme
import DeclLang.Text.Align
import DeclLang.Text.Lines

/-!
# Listings of tokens

All tokens of a source text, one a line, each with its line and column.  Tokens behind an error
are listed too; the errors are given beside the listing.
-/

namespace DeclLang

/-- The line that shows a token. -/
def Token.listingLine (t : Token) : String :=
  Align.left 8 t.span.display ++ " " ++ t.kind.display

/-- The lines of all tokens of a source text, the end of input included. -/
def tokenListing (source : String) : String := Lines.join ((tokens source).map Token.listingLine)

end DeclLang
