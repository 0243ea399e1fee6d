import DeclLang.SyntaxError

/-!
# The part of a source text that a report shows

A report shows the lines that its label lies on, and some lines before and after them as context.
`Window.around?` finds them in one scan over the text.  A carriage return ends a line here whether
or not a line feed follows, and the two together end one line.

The label need not come from the text.  There is no window when the text ends before the label
does.
-/

namespace DeclLang

/-- A stretch of a source text, and a place in it counted from zero. -/
structure Window where
  /-- The byte offset of the first byte. -/
  start : Nat
  /-- The byte offset behind the last byte. -/
  stop : Nat
  /-- How many lines lie before the stretch. -/
  line : Nat
  /-- How many bytes lie before the label on its line, when no line of context comes first. -/
  column : Nat
deriving DecidableEq

namespace Window

/-! ## What the scan sees of a text -/

/-- A byte that ends no line, or a line end of one or two bytes. -/
inductive Element where
  | byte
  | lineEnd (width : Nat)
deriving DecidableEq

/-- The elements of a text.  A character counts as the bytes that it takes. -/
def elements : List Char → List Element
  | [] => []
  | '\r' :: '\n' :: cs => .lineEnd 2 :: elements cs
  | c :: cs =>
    if c = '\r' ∨ c = '\n' then .lineEnd 1 :: elements cs
    else List.replicate c.utf8Size .byte ++ elements cs

/-! ## The scan -/

/-- What the scan remembers. -/
structure Scan where
  /-- The number of bytes behind it. -/
  offset : Nat := 0
  /-- The number of lines that lie before the window. -/
  line : Nat := 0
  /-- The number of bytes before the label on the line of the scan. -/
  column : Nat := 0
  /-- The beginnings of the lines of context before the label, the first line first. -/
  context : List Nat := []
  /-- The beginning of the line of the scan. -/
  lineStart : Nat := 0
  /-- The number of lines of context behind the label. -/
  linesAfter : Nat := 0
  /-- Whether the last byte of the label has been seen. -/
  reached : Bool := false
  /-- Whether the line on which the label ends has been left. -/
  ended : Bool := false

namespace Scan

/-- Leaves a line that ends before the label begins.  Of such lines the last `before` ones are
kept as context. -/
def leaveLineBefore (before : Nat) (s : Scan) : Scan :=
  let context := s.context ++ [s.lineStart]
  if before < context.length then
    { s with column := 0, context := context.tail, line := s.line + 1 }
  else { s with column := 0, context := context }

/-- Leaves a line on which the label has ended, or one behind it. -/
def leaveLineAfter (s : Scan) : Scan :=
  { s with
    column := 0
    linesAfter := if s.ended then s.linesAfter + 1 else s.linesAfter
    ended := true }

/-- Goes over one element, whose last byte is the one the scan stands at.  The answer also tells
whether the scan is over. -/
def pass (label : Label) (before after : Nat) (s : Scan) : Element → Scan × Bool
  | .byte => (if s.offset < label.offset then { s with column := s.column + 1 } else s, false)
  | .lineEnd _ =>
    if s.offset < label.offset then
      ({ s.leaveLineBefore before with lineStart := s.offset + 1 }, false)
    else if label.offset + (label.length - 1) ≤ s.offset ∧ s.reached then
      let s := s.leaveLineAfter
      if after ≤ s.linesAfter then (s, true) else ({ s with lineStart := s.offset + 1 }, false)
    else ({ s with lineStart := s.offset + 1 }, false)

/-- Notices the last byte of the label.  The scan is over at it when no lines of context are to
follow. -/
def notice (label : Label) (after : Nat) (s : Scan) : Scan × Bool :=
  if label.offset + label.length - 1 ≤ s.offset then
    ({ s with reached := true }, decide (after ≤ s.linesAfter))
  else (s, false)

/-- The number of bytes of an element before its last. -/
def lead : Element → Nat
  | .byte => 0
  | .lineEnd width => width - 1

/-- Takes one step: over an element, and past its last byte. -/
def step (label : Label) (before after : Nat) (s : Scan) (e : Element) : Scan × Bool :=
  let passed := pass label before after { s with offset := s.offset + lead e } e
  let noticed := if passed.2 then passed else notice label after passed.1
  ({ noticed.1 with offset := noticed.1.offset + 1 }, noticed.2)

/-- Scans a text until the window is complete or the text ends. -/
def run (label : Label) (before after : Nat) (s : Scan) : List Element → Scan
  | [] => s
  | e :: es =>
    let next := step label before after s e
    if next.2 then next.1 else run label before after next.1 es

end Scan

/-- The window around a label, with at most `before` and `after` lines of context. -/
def around? (label : Label) (before after : Nat) (text : List Char) : Option Window :=
  let s := Scan.run label before after {} (elements text)
  if label.offset + label.length - 1 ≤ s.offset then
    let first := if before = 0 then label.offset else 0
    some ⟨s.context.headD first, s.offset, s.line, if before = 0 then s.column else 0⟩
  else none

end Window

end DeclLang
