/-!
# The vocabulary of the language

The reserved words and the punctuation marks, each with the facts that documentation and tools
show about it.  A word or a mark is an element of a finite type; its spelling and its other facts
are functions on that type, so that no table can lack an entry.

* `Keyword.ofSpelling?` finds the reserved word that is spelled a given way, and
  `Keyword.ofSpelling?_eq_some_iff` says that it finds exactly that word.
* `Punctuation.ofSpelling?` does the same for marks.
-/

namespace DeclLang

/-- The version of the language and of its tools. -/
def languageVersion : String := "0.1.0-alpha.1"

/-! ## Facts that every entry has -/

/-- The version of the language in which an entry first appeared.  Versions are ordered by their
major number first. -/
structure Since where
  /-- The number that is compared first. -/
  major : Nat
  /-- The number that decides between versions of one major number. -/
  minor : Nat
deriving DecidableEq, Ord

namespace Since

/-- The two numbers with a point between them, as documentation shows a version. -/
def display (s : Since) : String := toString s.major ++ "." ++ toString s.minor

/-- The two numbers as a tagged pair, as tools dump a version. -/
def dump (s : Since) : String := "Since(" ++ toString s.major ++ ", " ++ toString s.minor ++ ")"

end Since

/-- How settled an entry of the vocabulary is. -/
inductive Stability where
  | stable
  | draft
  | deprecated
deriving DecidableEq

namespace Stability

/-- The name under which documentation shows a stability. -/
def name : Stability → String
  | stable => "Stable"
  | draft => "Draft"
  | deprecated => "Deprecated"

/-- All stabilities, from the most settled to the least. -/
def all : List Stability := [stable, draft, deprecated]

/-- The names of all stabilities, in brackets. -/
def listing : String := "[" ++ ", ".intercalate (all.map name) ++ "]"

end Stability

/-- A piece of source text that shows an entry in use. -/
structure Example where
  /-- The source text. -/
  code : String
  /-- What the reader should know beside the text, if anything. -/
  note : Option String
deriving DecidableEq

/-! ## Reserved words -/

/-- The reserved words. -/
inductive Keyword where
  | import
  | func
  | var
deriving DecidableEq

namespace Keyword

/-- The part of a source file that a reserved word belongs to. -/
inductive Category where
  | module
  | declaration
deriving DecidableEq

/-- The name under which documentation shows a category. -/
def Category.name : Category → String
  | module => "Module"
  | declaration => "Declaration"

/-- All reserved words, in the order in which documentation lists them. -/
def all : List Keyword := [.import, .func, .var]

/-- The name under which tools refer to a reserved word. -/
def name : Keyword → String
  | .import => "Import"
  | .func => "Func"
  | .var => "Var"

/-- How the word is written in source text. -/
def spelling : Keyword → String
  | .import => "import"
  | .func => "func"
  | .var => "var"

/-- Further spellings that are read as the word; there are none. -/
def aliases : Keyword → List String := fun _ => []

/-- The category of a reserved word. -/
def category : Keyword → Category
  | .import => .module
  | .func | .var => .declaration

/-- One or two sentences on what the word is for. -/
def description : Keyword → String
  | .import => "Import a module by its quoted path. Imports must precede all declarations."
  | .func => "Declare a function bound to a literal value."
  | .var => "Declare a variable bound to a literal value."

/-- The version that brought the word. -/
def since : Keyword → Since := fun _ => ⟨0, 1⟩

/-- How settled the word is. -/
def stability : Keyword → Stability := fun _ => .stable

/-- Source texts that show the word in use. -/
def examples : Keyword → List Example
  | .import => [⟨"import \"fmt\"", none⟩]
  | .func => [⟨"func greeting = \"hello\"", none⟩]
  | .var => [⟨"var answer = 42",
      some "Integer literals are base-10 and must fit in a signed 64-bit integer."⟩]

/-- The reserved word with the given spelling or alias.  Case matters. -/
def ofSpelling? (text : String) : Option Keyword :=
  all.find? fun k => k.spelling == text || k.aliases.contains text

theorem mem_all (k : Keyword) : k ∈ all := by cases k <;> decide

/-- A spelling is looked up to the word that has it, and to no other. -/
theorem ofSpelling?_eq_some_iff {text : String} {k : Keyword} :
    ofSpelling? text = some k ↔ k.spelling = text := by
  constructor
  · intro h
    have := List.find?_some h
    simpa [aliases] using this
  · rintro rfl
    cases k <;> decide

end Keyword

/-! ## Punctuation -/

/-- The punctuation marks. -/
inductive Punctuation where
  /-- Stands between a declared name and its value. -/
  | eq
deriving DecidableEq

namespace Punctuation

/-- What a mark is for. -/
inductive Category where
  | binding
deriving DecidableEq

/-- The name under which documentation shows a category. -/
def Category.name : Category → String
  | binding => "Binding"

/-- All marks, in the order in which documentation lists them. -/
def all : List Punctuation := [.eq]

/-- The name under which tools refer to a mark. -/
def name : Punctuation → String
  | .eq => "Eq"

/-- How the mark is written in source text. -/
def spelling : Punctuation → String
  | .eq => "="

/-- Further spellings that are read as the mark; there are none. -/
def aliases : Punctuation → List String := fun _ => []

/-- The category of a mark. -/
def category : Punctuation → Category
  | .eq => .binding

/-- The version that brought the mark. -/
def since : Punctuation → Since := fun _ => ⟨0, 1⟩

/-- How settled the mark is. -/
def stability : Punctuation → Stability := fun _ => .stable

/-- Source texts that show the mark in use. -/
def examples : Punctuation → List Example
  | .eq => [⟨"var x = 1", none⟩]

/-- The mark with the given spelling or alias. -/
def ofSpelling? (text : String) : Option Punctuation :=
  all.find? fun p => p.spelling == text || p.aliases.contains text

end Punctuation

end DeclLang
