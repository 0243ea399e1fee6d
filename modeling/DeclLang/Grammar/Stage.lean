import DeclLang.Decimal
import DeclLang.SourceFile
import DeclLang.SyntaxError

/-!
# How far an item has been read

A source file is a row of *items*: an import is the word `import` with a string behind it, and a
declaration is `func` or `var`, a name, the mark `=`, and a literal.  Imports come before all
declarations.

A `Stage` tells how far an item has been read and keeps what the rest of it needs.
`Stage.expected` lists the classes of the tokens that can come next, and `Stage.step` says what a
token makes of a stage; `Stage.step_eq_refuse_iff` says that the two agree.
-/

namespace DeclLang

/-- A part of a source file: one import or one declaration. -/
inductive Item where
  | import (path : Spanned String)
  | declaration (declaration : Spanned Declaration)
deriving DecidableEq

namespace Item

/-- The import that an item is, if it is one. -/
def import? : Item → Option (Spanned String)
  | .import path => some path
  | .declaration _ => none

/-- The declaration that an item is, if it is one. -/
def declaration? : Item → Option (Spanned Declaration)
  | .import _ => none
  | .declaration d => some d

/-- Whether no import can come behind the item any more. -/
def isDeclaration : Item → Bool
  | .import _ => false
  | .declaration _ => true

end Item

/-- The source file that consists of the given items. -/
def SourceFile.ofItems (items : List Item) : SourceFile :=
  ⟨items.filterMap Item.import?, items.filterMap Item.declaration?⟩

/-- How far an item has been read.  A declaration keeps the span of its first word, since its own
span begins there. -/
inductive Stage where
  /-- Before an item; imports can come only while nothing has been declared. -/
  | atItem (declared : Bool)
  /-- Behind `import`. -/
  | atPath
  /-- Behind `func` or `var`. -/
  | atName (kind : Declaration.Kind) (start : Span)
  /-- Behind the name of a declaration. -/
  | atMark (kind : Declaration.Kind) (start : Span) (name : String)
  /-- Behind the mark of a declaration. -/
  | atValue (kind : Declaration.Kind) (start : Span) (name : String)
deriving DecidableEq

/-- What a token makes of a stage. -/
inductive Stage.Step where
  /-- The token belongs to the item, and the item goes on. -/
  | goOn (stage : Stage)
  /-- The token is the last of the item.  There may still be no item: the token can be an integer
  without a value. -/
  | finish (outcome : Except GrammarError Item)
  /-- The token does not belong to the item. -/
  | refuse

namespace Stage

/-- The classes of the tokens that can come next. -/
def expected : Stage → List TokenClass
  | atItem false => [.keyword .import, .keyword .func, .keyword .var, .eof]
  | atItem true => [.keyword .func, .keyword .var, .eof]
  | atPath => [.string]
  | atName _ _ => [.ident]
  | atMark _ _ _ => [.punctuation .eq]
  | atValue _ _ _ => [.int, .string]

/-- What a token makes of a stage.  The end of input belongs to no item. -/
def step : Stage → Token → Step
  | atItem false, ⟨.keyword .import, _⟩ => .goOn atPath
  | atItem _, ⟨.keyword .func, span⟩ => .goOn (atName .func span)
  | atItem _, ⟨.keyword .var, span⟩ => .goOn (atName .var span)
  | atPath, ⟨.string path, span⟩ => .finish (.ok (.import ⟨path, span⟩))
  | atName kind start, ⟨.ident name, _⟩ => .goOn (atMark kind start name)
  | atMark kind start name, ⟨.punctuation .eq, _⟩ => .goOn (atValue kind start name)
  | atValue kind start name, ⟨.string text, span⟩ =>
    .finish (.ok (.declaration ⟨⟨kind, name, .string text⟩, start.merge span⟩))
  | atValue kind start name, ⟨.int digits, span⟩ =>
    match Decimal.int64? digits with
    | some n => .finish (.ok (.declaration ⟨⟨kind, name, .integer n⟩, start.merge span⟩))
    | none => .finish (.error (.integerOverflow digits span))
  | _, _ => .refuse

/-- The list of expected classes is exact: a token is refused if and only if its class is not
listed.  The end of input is listed where nothing more need come, and no item takes it. -/
theorem step_eq_refuse_iff {stage : Stage} {t : Token} (h : t.kind ≠ .eof) :
    stage.step t = .refuse ↔ t.kind.tokenClass ∉ stage.expected := by
  obtain ⟨kind, span⟩ := t
  cases stage with
  | atItem declared =>
    cases declared <;> cases kind with
    | keyword word => cases word <;> simp [step, expected, Token.Kind.tokenClass]
    | eof => exact absurd rfl h
    | _ => simp [step, expected, Token.Kind.tokenClass]
  | atPath => cases kind <;> simp [step, expected, Token.Kind.tokenClass]
  | atName declared start => cases kind <;> simp [step, expected, Token.Kind.tokenClass]
  | atMark declared start name =>
    cases kind with
    | punctuation mark => cases mark; simp [step, expected, Token.Kind.tokenClass]
    | _ => simp [step, expected, Token.Kind.tokenClass]
  | atValue declared start name =>
    cases kind with
    | int digits =>
      simp only [step, expected, Token.Kind.tokenClass]
      split <;> simp
    | _ => simp [step, expected, Token.Kind.tokenClass]

/-- The error of finding a token that cannot come next. -/
def unexpected (stage : Stage) (found : Token) : GrammarError :=
  .unexpectedToken stage.expected found

end Stage

end DeclLang
