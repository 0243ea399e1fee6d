/-!
# Positions and spans

A `Position` is a place between two characters of a source text, counted in three ways: bytes from
the beginning, lines, and characters on the line.  A `Span` is a stretch of source text: the byte
offsets of its two ends, with the line and the column of the first.

Positions move over text by `Position.advance` (one character) and `Position.after` (a list of
them); `Position.after_append` says that moving over two texts is moving over their
concatenation.
-/

namespace DeclLang

/-! ## Positions -/

/-- A place between two characters: the number of bytes before it, the number of its line, and
the number of its column.  Lines and columns count from one; a column is one character wide,
however many bytes the character takes. -/
structure Position where
  /-- The number of bytes before the place. -/
  offset : Nat
  /-- The number of the line, from one. -/
  line : Nat
  /-- The number of the character on its line, from one. -/
  column : Nat
deriving DecidableEq

namespace Position

/-- The beginning of a text. -/
def start : Position := ⟨0, 1, 1⟩

/-- The place after the character `c`.  Only a line feed begins a new line. -/
def advance (p : Position) (c : Char) : Position :=
  if c = '\n' then ⟨p.offset + c.utf8Size, p.line + 1, 1⟩
  else ⟨p.offset + c.utf8Size, p.line, p.column + 1⟩

/-- The place after the text `cs`. -/
def after (p : Position) (cs : List Char) : Position :=
  cs.foldl advance p

@[simp]
theorem after_nil (p : Position) : p.after [] = p := rfl

@[simp]
theorem after_cons (p : Position) (c : Char) (cs : List Char) :
    p.after (c :: cs) = (p.advance c).after cs := rfl

theorem after_append (p : Position) (cs ds : List Char) :
    p.after (cs ++ ds) = (p.after cs).after ds :=
  List.foldl_append

end Position

/-! ## Spans -/

/-- A stretch of source text, from the byte offset `start` up to the byte offset `stop`; `line`
and `column` tell where `start` is.  Nothing requires `stop` to lie behind `start`. -/
structure Span where
  /-- The byte offset of the first byte. -/
  start : Nat
  /-- The byte offset behind the last byte. -/
  stop : Nat
  /-- The line of the first byte, from one. -/
  line : Nat
  /-- The column of the first byte, from one. -/
  column : Nat
deriving DecidableEq

namespace Span

/-- The empty span at the beginning of a text. -/
def atStart : Span := ⟨0, 0, 1, 1⟩

/-- The stretch of text from one position to another. -/
def between (p q : Position) : Span := ⟨p.offset, q.offset, p.line, p.column⟩

/-- The number of bytes in the span; none if its end lies before its start. -/
def length (s : Span) : Nat := s.stop - s.start

/-- A span without bytes. -/
def isEmpty (s : Span) : Bool := s.length == 0

/-- The least span that covers both; it has the line and the column of the one that starts first,
and of the left one if both start together. -/
def merge (s t : Span) : Span :=
  let first := if s.start ≤ t.start then s else t
  ⟨first.start, max s.stop t.stop, first.line, first.column⟩

/-- Line and column with a colon between them. -/
def display (s : Span) : String := toString s.line ++ ":" ++ toString s.column

end Span

end DeclLang
