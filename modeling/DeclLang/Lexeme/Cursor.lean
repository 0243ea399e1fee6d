import DeclLang.Lexeme

/-!
# Reading lexemes one at a time

A cursor stands in a source text and is asked for one lexeme after another.  There are two ways of
asking: `Cursor.read` always has an answer, and at the end of the text it keeps answering with the
end of input; `Cursor.next?` answers no more once the end of input has been read either way.
-/

namespace DeclLang

/-- A place in a source text from which lexemes are read. -/
structure Cursor where
  /-- The text that has not been read. -/
  rest : List Char
  /-- The position of the first character of that text. -/
  position : Position
  /-- Whether the end of input has been read. -/
  finished : Bool

namespace Cursor

/-- The cursor at the beginning of a source text, behind a byte order mark. -/
def ofString (source : String) : Cursor :=
  let start := Lexeme.splitByteOrderMark source.toList
  ⟨start.2, start.1, false⟩

/-- The first lexeme of the text `cs` that begins at `p`, with the position and the text behind
it. -/
def readFrom (p : Position) : List Char → Lexeme × Position × List Char
  | [] => (.token ⟨.eof, .between p p⟩, p, [])
  | c :: cs =>
    let split := Piece.next c cs
    let q := p.after split.1.text
    match split.1.lexeme? (.between p q) with
    | none => readFrom q split.2
    | some lexeme => (lexeme, q, split.2)
termination_by cs => cs.length
decreasing_by exact Piece.next_snd_length_lt c cs

/-- Whether a lexeme is the end of input. -/
def isEnd : Lexeme → Bool
  | .token token => token.kind == .eof
  | .error _ => false

/-- Reads a lexeme. -/
def read (cursor : Cursor) : Lexeme × Cursor :=
  let step := readFrom cursor.position cursor.rest
  (step.1, ⟨step.2.2, step.2.1, cursor.finished || isEnd step.1⟩)

/-- Reads a lexeme unless the end of input has been read. -/
def next? (cursor : Cursor) : Option Lexeme × Cursor :=
  if cursor.finished then (none, cursor)
  else (some cursor.read.1, cursor.read.2)

end Cursor

end DeclLang
