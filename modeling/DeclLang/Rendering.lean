import DeclLang.Grammar.Parse
import DeclLang.Printer.Canonical
import DeclLang.Printer.Json
import DeclLang.Printer.Outline

/-!
# Parsing and printing in one go

Shows the tree of a source text in one of three forms.
-/

namespace DeclLang

/-- The forms in which a tree can be shown. -/
inductive Emit where
  | tree
  | source
  | json
deriving DecidableEq

namespace Emit

/-- The word by which a form is asked for. -/
def word : Emit → String
  | tree => "tree"
  | source => "source"
  | json => "json"

/-- All forms. -/
def all : List Emit := [tree, source, json]

/-- The form that a word asks for. -/
def ofWord? (text : String) : Option Emit := all.find? fun emit => emit.word == text

end Emit

/-- A tree shown in a form, with a line end behind it. -/
def SourceFile.emit (style : Style) (emit : Emit) (file : SourceFile) : String :=
  match emit with
  | .tree => file.outline style
  | .source => file.canonical style
  | .json => file.toJson ++ "\n"

/-- The tree of a source text shown in a form, or the errors in the text: all of them if `recover`
is set, and otherwise the first. -/
def renderSource (style : Style) (emit : Emit) (recover : Bool) (source : String) :
    Except (List SyntaxError) String :=
  let parsed := if recover then parseAll source else (parse source).mapError fun e => [e]
  parsed.map (SourceFile.emit style emit)

end DeclLang
