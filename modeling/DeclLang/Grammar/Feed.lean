import DeclLang.Lexeme

/-!
# The feed of the grammar

The grammar reads tokens, and lexical errors lie between them.  A *feed* puts each error with the
token that it follows: the errors before the first token, the tokens with the errors behind each,
and the end-of-input token.  Reading a token then comes with the errors behind it, which is the
moment at which they are noticed, since one token is always read ahead.

The first end-of-input token ends the feed, whatever comes behind it.  Where there is none, one is
made up behind the last token.
-/

namespace DeclLang

/-- A token with the lexical errors between it and the token behind it. -/
structure Feed.Entry where
  /-- The token, which is not the end of input. -/
  token : Token
  /-- The errors behind the token. -/
  errors : List LexicalError
deriving DecidableEq

/-- The tokens and the errors of a source text, in the order in which the grammar reads them. -/
structure Feed where
  /-- The errors before the first token. -/
  leading : List LexicalError
  /-- The tokens before the end of input. -/
  entries : List Feed.Entry
  /-- The end of input. -/
  eof : Token
deriving DecidableEq

namespace Feed

/-- The feed of the given lexemes, which lie behind the token `last`. -/
def behind (last : Token) : List Lexeme → Feed
  | [] => ⟨[], [], last.eofAfter⟩
  | .error e :: lexemes =>
    let feed := behind last lexemes
    { feed with leading := e :: feed.leading }
  | .token t :: lexemes =>
    if t.kind = .eof then ⟨[], [], t⟩
    else
      let feed := behind t lexemes
      ⟨[], ⟨t, feed.leading⟩ :: feed.entries, feed.eof⟩

/-- The feed of the given lexemes. -/
def ofLexemes (lexemes : List Lexeme) : Feed := behind .atStart lexemes

/-- The feed of the given tokens. -/
def ofTokens (tokens : List Token) : Feed := ofLexemes (tokens.map .token)

/-- The feed of a source text. -/
def ofString (source : String) : Feed := ofLexemes (Lexeme.ofString source)

end Feed

end DeclLang
