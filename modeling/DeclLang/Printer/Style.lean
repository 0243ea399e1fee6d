import DeclLang.Text.Quoted

/-!
# Printing styles

What a printer of source files leaves open.  Outlines use the indentation only, and canonical
source text all the rest.
-/

namespace DeclLang

/-- The choices that a printer leaves open. -/
structure Style where
  /-- How many spaces a level of an outline is indented by. -/
  indentWidth : Nat := 2
  /-- The quotes around strings. -/
  quoteStyle : QuoteStyle := .double
  /-- Whether an empty line separates the imports from the declarations. -/
  blankLineAfterImports : Bool := true
deriving DecidableEq

end DeclLang
