import DeclLang.Grammar.Pass

/-!
# Parsing

Two ways of reading a source file from a feed, both of them views of the same passes.

* `Feed.parse` stops at the first problem.  The token that finishes an item is read before the
  item is judged, and so are the lexical errors behind the token: of those and an error of the
  item the lexical ones come first.
* `Feed.parseAll` gives all errors, sorted by where they begin.  When an item breaks off right
  behind a lexical error, the token that is missing is most likely the one in error, and the item
  adds no error of its own.

`parse`, `parseAll` and `parseTokens` read source texts and rows of tokens.
-/

namespace DeclLang

namespace Pass

/-- The lexical errors among tokens, in order. -/
def lexicalErrors (entries : List Feed.Entry) : List SyntaxError :=
  entries.flatMap fun entry => entry.errors.map .lexical

/-- The first problem of a pass: a lexical error that the attempt came upon, or else its own
failure. -/
def problem? (p : Pass) : Option SyntaxError :=
  match lexicalErrors p.read, p.outcome with
  | error :: _, _ => some error
  | [], .error e => some (.grammar e)
  | [], .ok _ => none

/-- Whether the failure of a pass only repeats a lexical error: an item was begun and broke off
at a token with such an error right before it. -/
def repeatsLexicalError (p : Pass) : Bool :=
  match p.outcome, p.read.getLast? with
  | .error (.unexpectedToken _ _), some entry => !entry.errors.isEmpty
  | _, _ => false

/-- The failure of a pass, if it had one that should be reported. -/
def failure (p : Pass) : List SyntaxError :=
  match p.outcome with
  | .error e => if p.repeatsLexicalError then [] else [.grammar e]
  | .ok _ => []

/-- All errors of a pass, in the order in which they are noticed. -/
def errors (p : Pass) : List SyntaxError :=
  lexicalErrors p.read ++ p.failure ++ lexicalErrors p.skipped

/-- The item that a pass found, if it found one. -/
def item? (p : Pass) : Option Item := p.outcome.toOption

end Pass

namespace Feed

/-- The passes over a feed. -/
def passes (feed : Feed) : List Pass := DeclLang.passes feed.eof false feed.entries

/-- The source file that consists of all items found. -/
def sourceFile (feed : Feed) : SourceFile := .ofItems (feed.passes.filterMap Pass.item?)

/-- The first problem of a feed. -/
def problem? (feed : Feed) : Option SyntaxError :=
  match feed.leading with
  | error :: _ => some (.lexical error)
  | [] => feed.passes.findSome? Pass.problem?

/-- All errors of a feed, in the order in which they are noticed. -/
def errors (feed : Feed) : List SyntaxError :=
  feed.leading.map .lexical ++ feed.passes.flatMap Pass.errors

/-- The source file that a feed makes, or its first problem. -/
def parse (feed : Feed) : Except SyntaxError SourceFile :=
  match feed.problem? with
  | some error => .error error
  | none => .ok feed.sourceFile

/-- The source file that a feed makes, or all its errors.  They are sorted by where they begin,
and those that begin together stay in the order in which they were noticed. -/
def parseAll (feed : Feed) : Except (List SyntaxError) SourceFile :=
  match feed.errors with
  | [] => .ok feed.sourceFile
  | errors => .error (errors.mergeSort fun a b => a.span.start ≤ b.span.start)

end Feed

/-- The source file that a text makes, or its first problem. -/
def parse (source : String) : Except SyntaxError SourceFile := (Feed.ofString source).parse

/-- The source file that a text makes, or all its errors. -/
def parseAll (source : String) : Except (List SyntaxError) SourceFile :=
  (Feed.ofString source).parseAll

/-- The source file that a row of tokens makes, or its first problem. -/
def parseTokens (tokens : List Token) : Except SyntaxError SourceFile :=
  (Feed.ofTokens tokens).parse

end DeclLang
