import DeclLang.Printer.Style
import DeclLang.SourceFile
import DeclLang.Text.Lines
import DeclLang.Vocabulary

/-!
# Canonical source text

The source text of a tree: one line for each import and then one for each declaration, with single
spaces between the words.  If there are both imports and declarations, the style may ask for an
empty line between them.  Names are written as they are, whether or not they can be read back.
-/

namespace DeclLang

/-- The word that a declaration begins with. -/
def Declaration.Kind.keyword : Declaration.Kind → Keyword
  | func => .func
  | var => .var

namespace Canonical

/-- The written form of a literal. -/
def literal (q : QuoteStyle) : Literal → String
  | .integer n => toString n.toInt
  | .string text => Quoted.encode q text

/-- The line of an import. -/
def importLine (q : QuoteStyle) (path : String) : String :=
  Keyword.import.spelling ++ " " ++ Quoted.encode q path

/-- The line of a declaration. -/
def declarationLine (q : QuoteStyle) (d : Declaration) : String :=
  d.kind.keyword.spelling ++ " " ++ d.name ++ " " ++ Punctuation.eq.spelling ++ " " ++
    literal q d.value

/-- The lines between the imports and the declarations. -/
def separator (style : Style) (file : SourceFile) : List String :=
  if style.blankLineAfterImports && !file.imports.isEmpty && !file.declarations.isEmpty then [""]
  else []

/-- All lines of a source file. -/
def lines (style : Style) (file : SourceFile) : List String :=
  file.importPaths.map (importLine style.quoteStyle) ++ separator style file ++
    file.declarationNodes.map (declarationLine style.quoteStyle)

end Canonical

/-- The canonical source text of a tree. -/
def SourceFile.canonical (style : Style) (file : SourceFile) : String :=
  Lines.join (Canonical.lines style file)

end DeclLang
