import DeclLang.Span

/-!
# Source files

What a source text says, as a tree: the paths that it imports, and the declarations that it makes.
A declaration binds a name to one literal.  Every import and every declaration has the span of the
source text that it came from.

A tree may hold what no source text says, such as a name with a line feed in it or a negative
integer.  `SourceFile.sameStructure` compares two trees without their spans.
-/

namespace DeclLang

/-- A part of the tree and where it came from. -/
structure Spanned (α : Type) where
  /-- The part itself. -/
  node : α
  /-- The source text that it came from. -/
  span : Span
deriving DecidableEq

/-! ## Literals -/

/-- The value that a declaration gives to its name. -/
inductive Literal where
  | integer (value : Int64)
  | string (value : String)
deriving DecidableEq

/-- The name of the type of a literal. -/
def Literal.kindName : Literal → String
  | integer _ => "Integer"
  | string _ => "String"

/-! ## Declarations -/

/-- What a declaration declares. -/
inductive Declaration.Kind where
  | func
  | var
deriving DecidableEq

/-- The name of a kind of declaration. -/
def Declaration.Kind.name : Declaration.Kind → String
  | func => "Function"
  | var => "Variable"

/-- A name bound to a literal. -/
structure Declaration where
  /-- What is declared. -/
  kind : Declaration.Kind
  /-- The name that is bound. -/
  name : String
  /-- The literal that it is bound to. -/
  value : Literal
deriving DecidableEq

/-! ## Source files -/

/-- The imports and the declarations of a source text, in order. -/
structure SourceFile where
  /-- The paths of the imported modules. -/
  imports : List (Spanned String)
  /-- The declarations. -/
  declarations : List (Spanned Declaration)
deriving DecidableEq

namespace SourceFile

/-- The imported paths without their spans. -/
def importPaths (file : SourceFile) : List String := file.imports.map Spanned.node

/-- The declarations without their spans. -/
def declarationNodes (file : SourceFile) : List Declaration := file.declarations.map Spanned.node

/-- Whether the source text says nothing. -/
def isEmpty (file : SourceFile) : Bool := file.imports.isEmpty && file.declarations.isEmpty

/-- Whether two trees say the same, wherever they say it. -/
def sameStructure (a b : SourceFile) : Bool :=
  a.importPaths == b.importPaths && a.declarationNodes == b.declarationNodes

theorem sameStructure_iff {a b : SourceFile} :
    a.sameStructure b ↔
      a.importPaths = b.importPaths ∧ a.declarationNodes = b.declarationNodes := by
  simp [sameStructure]

end SourceFile

end DeclLang
