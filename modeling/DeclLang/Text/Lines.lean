/-!
# The lines of a text

A line feed ends a line, and a carriage return right before it belongs to the line end.  What
follows the last line feed is a line of its own unless it is empty; a carriage return at the end
of the text, or anywhere else without a line feed behind it, is part of its line.

`Line.ofText` takes a text apart into lines with their line ends, `Lines.ofString` gives the text of
the lines alone, and `Lines.join` writes lines with a line feed behind each.
-/

namespace DeclLang

/-- A line of a text. -/
structure Line where
  /-- The characters before the line end. -/
  text : List Char
  /-- The number of bytes of the line, its line end included. -/
  width : Nat
  /-- Whether the line has a line end. -/
  ended : Bool
deriving DecidableEq

/-- The lines of a text, in order. -/
def Line.ofText : List Char → List Line
  | [] => []
  | '\n' :: cs => ⟨[], 1, true⟩ :: ofText cs
  | '\r' :: '\n' :: cs => ⟨[], 2, true⟩ :: ofText cs
  | c :: cs =>
    match ofText cs with
    | [] => [⟨[c], c.utf8Size, false⟩]
    | line :: lines => ⟨c :: line.text, c.utf8Size + line.width, line.ended⟩ :: lines

namespace Lines

/-- The lines of a text, without their line ends. -/
def ofString (text : String) : List String :=
  (Line.ofText text.toList).map fun line => String.ofList line.text

/-- The text that has the given lines, each ended by a line feed. -/
def join (lines : List String) : String :=
  String.ofList (lines.flatMap fun line => line.toList ++ ['\n'])

end Lines

end DeclLang
