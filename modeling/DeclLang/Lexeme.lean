import DeclLang.Lexeme.Piece

/-!
# The lexemes of a source text

A lexeme is what the grammar gets to see of a source text: a token, or an error in the place of
one.  The lexemes of a text are its pieces without the trivia, each with the span that it covers,
and one end-of-input token behind the last.  A byte order mark at the beginning of the text is
passed over, and columns on the first line count from behind it.

* `Lexeme.ofString` gives the lexemes of a text, errors among them.
* `lex` gives the tokens if there is no error, and the first error otherwise; `lexAll` gives all
  errors instead of the first.
-/

namespace DeclLang

/-- A token of a source text, or a stretch of it that is no token. -/
inductive Lexeme where
  | token (token : Token)
  | error (error : LexicalError)
deriving DecidableEq

/-- What the grammar gets to see of a piece that covers the given span. -/
def Piece.lexeme? (piece : Piece) (span : Span) : Option Lexeme :=
  match piece.role with
  | .trivia => none
  | .token kind => some (.token ⟨kind, span⟩)
  | .fault fault => some (.error ⟨fault, span⟩)

namespace Lexeme

/-! ## From pieces to lexemes -/

/-- The lexemes of pieces that begin at `p`, with the end of input behind them. -/
def place (p : Position) : List Piece → List Lexeme
  | [] => [.token ⟨.eof, .between p p⟩]
  | piece :: more =>
    let q := p.after piece.text
    (piece.lexeme? (.between p q)).toList ++ place q more

/-- Passes over a byte order mark at the beginning of a text: the position at which the first
piece begins, and the text from there on. -/
def splitByteOrderMark : List Char → Position × List Char
  | '\uFEFF' :: cs => (⟨'\uFEFF'.utf8Size, 1, 1⟩, cs)
  | cs => (.start, cs)

/-- The lexemes of a source text. -/
def ofString (source : String) : List Lexeme :=
  let start := splitByteOrderMark source.toList
  place start.1 (pieces start.2)

/-! ## Tokens and errors -/

/-- The token that a lexeme is, if it is one. -/
def token? : Lexeme → Option Token
  | token t => some t
  | error _ => none

/-- The error that a lexeme is, if it is one. -/
def error? : Lexeme → Option LexicalError
  | token _ => none
  | error e => some e

end Lexeme

/-- All tokens of a source text, whether or not there are errors between them. -/
def tokens (source : String) : List Token := (Lexeme.ofString source).filterMap Lexeme.token?

/-- All lexical errors of a source text, in order. -/
def lexicalErrors (source : String) : List LexicalError :=
  (Lexeme.ofString source).filterMap Lexeme.error?

/-- The tokens of a source text, or its first lexical error. -/
def lex (source : String) : Except LexicalError (List Token) :=
  match (Lexeme.ofString source).findSome? Lexeme.error? with
  | none => .ok (tokens source)
  | some error => .error error

/-- The tokens of a source text, or all its lexical errors in order. -/
def lexAll (source : String) : Except (List LexicalError) (List Token) :=
  match lexicalErrors source with
  | [] => .ok (tokens source)
  | errors => .error errors

end DeclLang
