import DeclLang.Token

/-!
# What can be wrong with a source text

An error says what is wrong and where.  There are two families: a *lexical* error is a stretch of
text that is no token, and a *grammar* error is a token that cannot stand where it stands, or an
integer that has no value.  All that is shown of an error is derived here: its message, its code,
the label under the source text that it points at, and advice where there is any.
-/

namespace DeclLang

/-! ## Lexical errors -/

/-- Why a stretch of text is no token. -/
inductive LexicalFault where
  /-- A string whose line ends before its delimiter comes. -/
  | unterminatedString
  /-- A block comment that the text ends in. -/
  | unterminatedComment
  /-- A character with which nothing begins. -/
  | unexpectedChar (char : Char)
deriving DecidableEq

namespace LexicalFault

/-- What is wrong, in a sentence. -/
def message : LexicalFault → String
  | unterminatedString => "unterminated string literal"
  | unterminatedComment => "unterminated block comment"
  | unexpectedChar char => "unexpected character " ++ Visible.char char

/-- The stable name of the kind of error. -/
def code : LexicalFault → String
  | unterminatedString => "sapling::lex::unterminated_string"
  | unterminatedComment => "sapling::lex::unterminated_comment"
  | unexpectedChar _ => "sapling::lex::unexpected_char"

/-- What a report writes under the text in error. -/
def labelText : LexicalFault → String
  | unterminatedString => "string starts here and is never closed"
  | unterminatedComment => "comment starts here and is never closed"
  | unexpectedChar _ => "not part of any token"

/-- What to do about it, if there is a general answer. -/
def help? : LexicalFault → Option String
  | unterminatedString =>
    some "close the string with the same quote it was opened with; strings cannot span lines"
  | unterminatedComment => some "add `*/` to close the comment"
  | unexpectedChar _ => none

end LexicalFault

/-- A stretch of text that is no token. -/
structure LexicalError where
  /-- Why it is none. -/
  fault : LexicalFault
  /-- The text in error. -/
  span : Span
deriving DecidableEq

/-! ## Grammar errors -/

/-- A token where the grammar has no use for it. -/
inductive GrammarError where
  /-- A token that cannot come next, with the classes of those that can. -/
  | unexpectedToken (expected : List TokenClass) (found : Token)
  /-- An integer, written where an integer may stand, whose value is out of range. -/
  | integerOverflow (digits : String) (span : Span)
deriving DecidableEq

namespace GrammarError

/-- The text in error. -/
def span : GrammarError → Span
  | unexpectedToken _ found => found.span
  | integerOverflow _ span => span

/-- The classes of the tokens that could have come. -/
def expected : GrammarError → List TokenClass
  | unexpectedToken expected _ => expected
  | integerOverflow _ _ => []

/-- What is wrong, in a sentence. -/
def message : GrammarError → String
  | unexpectedToken expected found =>
    "expected " ++ TokenClass.describe expected ++ ", found " ++ found.kind.display
  | integerOverflow digits _ =>
    "integer literal `" ++ digits ++ "` does not fit in a signed 64-bit integer"

/-- The stable name of the kind of error. -/
def code : GrammarError → String
  | unexpectedToken _ _ => "sapling::parse::unexpected_token"
  | integerOverflow _ _ => "sapling::parse::integer_overflow"

/-- What a report writes under the text in error. -/
def labelText : GrammarError → String
  | unexpectedToken expected _ => "expected " ++ TokenClass.describe expected ++ " here"
  | integerOverflow _ _ => "maximum is 9223372036854775807"

end GrammarError

/-! ## Both families -/

/-- Anything that can be wrong with a source text. -/
inductive SyntaxError where
  | lexical (error : LexicalError)
  | grammar (error : GrammarError)
deriving DecidableEq

/-- A remark on a stretch of source text. -/
structure Label where
  /-- The byte offset at which the stretch begins. -/
  offset : Nat
  /-- Its length in bytes. -/
  length : Nat
  /-- The remark. -/
  text : String
deriving DecidableEq

namespace SyntaxError

/-- The text in error. -/
def span : SyntaxError → Span
  | lexical error => error.span
  | grammar error => error.span

/-- What is wrong, in a sentence. -/
def message : SyntaxError → String
  | lexical error => error.fault.message
  | grammar error => error.message

/-- The stable name of the kind of error. -/
def code : SyntaxError → String
  | lexical error => error.fault.code
  | grammar error => error.code

/-- What to do about it, if there is a general answer. -/
def help? : SyntaxError → Option String
  | lexical error => error.fault.help?
  | grammar _ => none

/-- Whether no token is in question. -/
def isLexical : SyntaxError → Bool
  | lexical _ => true
  | grammar _ => false

/-- The classes of the tokens that could have come; a lexical error has no such classes. -/
def expected? : SyntaxError → Option (List TokenClass)
  | lexical _ => none
  | grammar error => some error.expected

/-- What a report writes under the text in error. -/
def labelText : SyntaxError → String
  | lexical error => error.fault.labelText
  | grammar error => error.labelText

/-- The remark that a report makes on the text in error. -/
def label (e : SyntaxError) : Label := ⟨e.span.start, e.span.length, e.labelText⟩

end SyntaxError

end DeclLang
