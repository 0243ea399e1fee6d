import DeclLang.Vocabulary
import DeclLang.Span
import DeclLang.Text.Visible

/-!
# Tokens

A token is a word of the grammar with the place where it was found.  Its kind carries what the
grammar and the tree need of it: which reserved word or mark it is, or the name, the digits or the
value that it stands for.  A token class is a kind without such a payload; the grammar says in
classes which tokens may come next.
-/

namespace DeclLang

/-! ## Token classes -/

/-- What the grammar distinguishes among tokens. -/
inductive TokenClass where
  | keyword (word : Keyword)
  | punctuation (mark : Punctuation)
  | ident
  | int
  | string
  | eof
deriving DecidableEq

namespace TokenClass

/-- How messages refer to a token of the class. -/
def display : TokenClass → String
  | keyword word => "`" ++ word.spelling ++ "`"
  | punctuation mark => "`" ++ mark.spelling ++ "`"
  | ident => "identifier"
  | int => "integer literal"
  | string => "string literal"
  | eof => "end of input"

/-- How messages list alternatives: commas between them, and a word before the last. -/
def alternatives (first : TokenClass) : List TokenClass → String
  | [] => first.display
  | [last] => first.display ++ " or " ++ last.display
  | next :: more => first.display ++ ", " ++ next.alternatives more

/-- How messages say which tokens could have come. -/
def describe : List TokenClass → String
  | [] => "nothing"
  | first :: more => first.alternatives more

end TokenClass

/-! ## Tokens -/

/-- What a token is, with what it stands for.  The digits of an integer are kept as they were
written, since the lexical rules do not bound their number; the value of a string is what its
written form stands for. -/
inductive Token.Kind where
  | keyword (word : Keyword)
  | punctuation (mark : Punctuation)
  | ident (name : String)
  | int (digits : String)
  | string (value : String)
  | eof
deriving DecidableEq

/-- A word of the grammar and its place in the source text. -/
structure Token where
  /-- What the token is. -/
  kind : Token.Kind
  /-- The source text that the token covers. -/
  span : Span
deriving DecidableEq

namespace Token.Kind

/-- The class of a token. -/
def tokenClass : Kind → TokenClass
  | keyword word => .keyword word
  | punctuation mark => .punctuation mark
  | ident _ => .ident
  | int _ => .int
  | string _ => .string
  | eof => .eof

/-- Whether a token is of the given class. -/
def is (kind : Kind) (c : TokenClass) : Bool := kind.tokenClass == c

/-- The reserved word that a token is, if it is one. -/
def keyword? : Kind → Option Keyword
  | keyword word => some word
  | _ => none

/-- The mark that a token is, if it is one. -/
def punctuation? : Kind → Option Punctuation
  | punctuation mark => some mark
  | _ => none

/-- How messages refer to a token: its class, with what the token stands for. -/
def display : Kind → String
  | ident name => "identifier `" ++ name ++ "`"
  | int digits => "integer literal `" ++ digits ++ "`"
  | string value => "string literal " ++ Visible.string value
  | keyword word => (TokenClass.keyword word).display
  | punctuation mark => (TokenClass.punctuation mark).display
  | eof => TokenClass.eof.display

end Token.Kind

namespace Token

/-- The end of an empty source text. -/
def atStart : Token := ⟨.eof, .atStart⟩

/-- The end of input right behind a token, worked out from the token alone.  A column is a
character wide, so from the bytes of the token come off those that its characters have beyond
one each.  Only a string can hold such characters, and it holds them as they were written.
The sum of the two is a machine word: behind the largest one comes zero again. -/
def eofAfter (last : Token) : Token :=
  let surplus := match last.kind with
    | .string value => value.utf8ByteSize - value.length
    | _ => 0
  let span := last.span
  ⟨.eof, ⟨span.stop, span.stop, span.line,
    (span.column + (span.length - surplus)) % UInt64.size⟩⟩

end Token

end DeclLang
