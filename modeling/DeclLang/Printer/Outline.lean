import DeclLang.Printer.Style
import DeclLang.SourceFile
import DeclLang.Text.Align
import DeclLang.Text.Lines

/-!
# Outlines

A listing of a tree for people: one line for each part, indented by its depth, with a heading over
the imports and one over the declarations.  Strings are always shown in double quotes.

An outline is first a row of entries with their depths; `SourceFile.outline` turns the depths into
spaces.
-/

namespace DeclLang

namespace Outline

/-- A line of an outline before it is indented. -/
structure Entry where
  /-- How many levels the line lies below the first. -/
  depth : Nat
  /-- What the line says. -/
  text : String
deriving DecidableEq

/-- The entry below a heading that nothing else is below. -/
def noEntry : Entry := ⟨2, "(none)"⟩

/-- The entry of an import. -/
def importEntry (path : String) : Entry := ⟨2, Quoted.encode .double path⟩

/-- What an outline says of a literal. -/
def literal (value : Literal) : String :=
  value.kindName ++ " " ++
    match value with
    | .integer n => toString n.toInt
    | .string text => Quoted.encode .double text

/-- The entries of a declaration: what is declared, and its value below it. -/
def declarationEntries (d : Declaration) : List Entry :=
  [⟨2, d.kind.name ++ " " ++ d.name⟩, ⟨3, literal d.value⟩]

/-- A heading with the given title, and the entries below it. -/
def titled (title : String) (entries : List Entry) : List Entry :=
  ⟨1, title⟩ :: if entries.isEmpty then [noEntry] else entries

/-- The entries of a source file. -/
def entries (file : SourceFile) : List Entry :=
  ⟨0, "SourceFile"⟩ ::
    (titled "imports" (file.importPaths.map importEntry) ++
      titled "declarations" (file.declarationNodes.flatMap declarationEntries))

/-- The line of an entry. -/
def Entry.line (indentWidth : Nat) (entry : Entry) : String :=
  Align.spaces (entry.depth * indentWidth) ++ entry.text

end Outline

/-- The outline of a tree. -/
def SourceFile.outline (style : Style) (file : SourceFile) : String :=
  Lines.join ((Outline.entries file).map (Outline.Entry.line style.indentWidth))

end DeclLang
