import DeclLang.Report.Window
import DeclLang.Text.Align
import DeclLang.Text.Lines

/-!
# Source text with a label

A snippet shows a window of a source text line by line, with line numbers at the left.  A label
within one line is drawn below it: the text in question is underlined, and the remark hangs from
the middle of the line.  A label over several lines is drawn as a bracket to the left of them,
and the remark hangs from its lower end.
-/

namespace DeclLang

/-! ## How wide text is -/

namespace Columns

/-- The distance between tab stops. -/
def tabWidth : Nat := 4

/-- How far a text with terminal sequences in it has been shown: the column that has been
reached, and whether such a sequence is open. -/
structure Progress where
  /-- The number of columns behind. -/
  column : Nat := 0
  /-- Whether a terminal sequence has begun and not ended. -/
  inSequence : Bool := false

/-- How many columns a character takes.  A tab takes those up to the next tab stop.  The escape
character begins a terminal sequence, which an `m` ends and which takes none. -/
def width (p : Progress) (c : Char) : Nat :=
  if p.inSequence then 0
  else if c = '\t' then tabWidth - p.column % tabWidth
  else if c.toNat < 0x20 ∨ (0x7f ≤ c.toNat ∧ c.toNat < 0xa0) ∨ c = '\uFEFF' then 0
  else 1

/-- What a character adds. -/
def advance (p : Progress) (c : Char) : Progress :=
  ⟨p.column + width p c, if p.inSequence then c != 'm' else c == '\x1b'⟩

/-- How many columns a text takes. -/
def widthOf (text : List Char) : Nat := (text.foldl advance {}).column

/-- A text as it is shown, with spaces for its tabs. -/
def expand (p : Progress) : List Char → List Char
  | [] => []
  | c :: cs =>
    (if c = '\t' then List.replicate (width p c) ' ' else [c]) ++ expand (advance p c) cs

end Columns

/-! ## The lines of a snippet -/

/-- A line of a snippet. -/
structure SnippetLine where
  /-- The number shown beside the line. -/
  number : Nat
  /-- The byte offset of its first byte in the source text. -/
  offset : Nat
  /-- Its number of bytes, the line end included. -/
  width : Nat
  /-- Its characters, without the line end. -/
  text : List Char

namespace SnippetLine

/-- Numbers lines and places them, where `line` lines come before them and the first byte is at
`offset`.  A last line without a line end that closes with a carriage return gets the number of
the line before it. -/
def place (line offset : Nat) : List Line → List SnippetLine
  | [] => []
  | l :: ls =>
    let number := if !l.ended && l.text.getLast? == some '\r' then line else line + 1
    ⟨number, offset, l.width, l.text⟩ :: place (line + 1) (offset + l.width) ls

/-- The text within the given number of bytes, in whole characters. -/
def takeBytes (count : Nat) : List Char → List Char
  | [] => []
  | c :: cs => if c.utf8Size ≤ count then c :: takeBytes (count - c.utf8Size) cs else []

/-- The text behind the given number of bytes, in whole characters. -/
def dropBytes (count : Nat) : List Char → List Char
  | [] => []
  | c :: cs => if count = 0 then c :: cs else dropBytes (count - c.utf8Size) cs

/-- The lines of a window of a source text. -/
def ofWindow (window : Window) (text : List Char) : List SnippetLine :=
  place window.line window.start
    (Line.ofText (takeBytes (window.stop - window.start) (dropBytes window.start text)))

/-- Where the line stops in the source text. -/
def stop (l : SnippetLine) : Nat := l.offset + l.width

/-! ## How a line and a label lie to each other -/

/-- The place behind a label, which counts as at least one byte. -/
def labelStop (label : Label) : Nat := label.offset + max label.length 1

/-- The label begins on the line. -/
def holdsStart (l : SnippetLine) (label : Label) : Bool :=
  l.offset ≤ label.offset && label.offset < l.stop

/-- The last byte of the label is on the line. -/
def holdsEnd (l : SnippetLine) (label : Label) : Bool :=
  l.offset < labelStop label && labelStop label ≤ l.stop

/-- The label begins before the line and ends behind it. -/
def isCrossed (l : SnippetLine) (label : Label) : Bool :=
  label.offset < l.offset && l.stop < labelStop label

/-- The label touches the line. -/
def touches (l : SnippetLine) (label : Label) : Bool :=
  l.holdsStart label || l.isCrossed label || l.holdsEnd label

/-- The label neither begins before the line nor ends behind it. -/
def contains (l : SnippetLine) (label : Label) : Bool :=
  l.offset ≤ label.offset && label.offset + label.length ≤ l.stop

/-- The label ends on the line, seen from its true length. -/
def closes (l : SnippetLine) (label : Label) : Bool :=
  l.offset ≤ label.offset + label.length && label.offset + label.length ≤ l.stop

/-- The label needs a bracket beside the line. -/
def hasBracket (l : SnippetLine) (label : Label) : Bool :=
  l.touches label && !(l.holdsStart label && l.holdsEnd label)

/-! ## Drawing -/

/-- The part of the bracket beside a line. -/
def bracket (l : SnippetLine) (label : Label) : String :=
  if l.hasBracket label then
    if l.offset ≤ label.offset then "╭─▶ "
    else if l.closes label then "├─▶ "
    else if label.offset < l.offset && l.stop < label.offset + label.length then "│   "
    else "    "
  else "    "

/-- The length in bytes of the characters of a line, without the line end. -/
def textBytes (l : SnippetLine) : Nat := (String.ofList l.text).utf8ByteSize

/-- The column at which the character at byte `index` of the line begins; an index within a
character counts for that character.  Behind the text there is one column more. -/
def columnFrom (l : SnippetLine) (index : Nat) : Nat :=
  if l.textBytes < index then Columns.widthOf l.text + 1
  else Columns.widthOf (takeBytes index l.text)

/-- The shortest beginning of a text with at least the given number of bytes. -/
def coverBytes (count : Nat) : List Char → List Char
  | [] => []
  | c :: cs => if count = 0 then [] else c :: coverBytes (count - c.utf8Size) cs

/-- The column behind the characters that the first `index` bytes of the line belong to.  Behind
the text there is one column more. -/
def columnBehind (l : SnippetLine) (index : Nat) : Nat :=
  if l.textBytes < index then Columns.widthOf l.text + 1
  else Columns.widthOf (coverBytes index l.text)

/-- The columns of a text that a label underlines: where it begins, and where it stops. -/
def underlined (l : SnippetLine) (label : Label) : Nat × Nat :=
  let start := l.columnFrom (label.offset - l.offset)
  let stop := if label.length = 0 then start + 1
    else max (start + 1) (l.columnBehind (label.offset + label.length - l.offset))
  (start, stop)

/-- A text repeated. -/
def rule (count : Nat) : String := String.ofList (List.replicate count '─')

/-- The line and the remark below a text within one line. -/
def underline (l : SnippetLine) (label : Label) : List String :=
  let (start, stop) := l.underlined label
  let middle := (start + stop) / 2
  let joint := if label.length = 0 then "▲" else "┬"
  [Align.spaces start ++ rule (middle - start) ++ joint ++ rule (stop - middle - 1),
    Align.spaces middle ++ "╰── " ++ label.text]

/-- What is drawn for a line of the snippet: the line itself, and the label below it. -/
def draw (label : Label) (numberWidth : Nat) (bracketed : Bool) (l : SnippetLine) :
    List String :=
  let margin := " " ++ Align.spaces numberWidth ++ " · "
  let gutter := if bracketed then l.bracket label else ""
  let shown := " " ++ Align.right numberWidth (toString l.number) ++ " │ " ++ gutter ++
    String.ofList (Columns.expand {} l.text)
  let below :=
    if l.touches label && l.contains label then
      (l.underline label).map fun text => margin ++ (if bracketed then "    " else "") ++ text
    else if l.touches label && l.closes label && label.offset < l.offset then
      [margin ++ "╰──── " ++ label.text]
    else []
  shown :: below

end SnippetLine

/-! ## Snippets -/

namespace Snippet

/-- What is shown when the label lies outside the text. -/
def unavailable (label : Label) : List String :=
  ["  [Failed to read contents for label `" ++ label.text ++ "` (offset: " ++
    toString label.offset ++ ", length: " ++ toString label.length ++ "): OutOfBounds]"]

/-- The file name, and the line and the column in bytes of a place, counted from one. -/
def location (fileName : String) (place : Window) : String :=
  fileName ++ ":" ++ toString (place.line + 1) ++ ":" ++ toString (place.column + 1)

/-- The snippet of a source text around a label, line by line. -/
def lines (fileName : String) (label : Label) (text : List Char) : List String :=
  match Window.around? label 1 1 text, Window.around? label 0 0 text with
  | some window, some place =>
    let snippet := SnippetLine.ofWindow window text
    let numberWidth := (snippet.getLast?.map fun l => (toString l.number).length).getD 1
    let bracketed := snippet.any fun l => l.hasBracket label && !l.contains label
    let indent := Align.spaces (numberWidth + 2)
    (indent ++ "╭─[" ++ location fileName place ++ "]") ::
      snippet.flatMap (SnippetLine.draw label numberWidth bracketed) ++
      [indent ++ "╰────"]
  | _, _ => unavailable label

end Snippet

end DeclLang
