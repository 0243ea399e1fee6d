import DeclLang.Text.Align
import DeclLang.Text.Lines

/-!
# Differences line by line

Two texts are compared line by line, the first line of one with the first of the other and so on;
lines that moved are not recognised.  Where the lines of a number differ, the old one is removed
and the new one added, if there are such lines.
-/

namespace DeclLang

/-- What happens to a line. -/
inductive LineEdit.Action where
  | remove
  | add
deriving DecidableEq

/-- One step from the old lines to the new. -/
structure LineEdit where
  /-- Whether the line is removed or added. -/
  action : LineEdit.Action
  /-- The number of the line, from one. -/
  number : Nat
  /-- What the line says. -/
  content : String
deriving DecidableEq

namespace LineEdit

/-- The sign that stands for an action. -/
def Action.sign : Action → String
  | remove => "-"
  | add => "+"

/-- The line that shows an edit. -/
def display (edit : LineEdit) : String :=
  edit.action.sign ++ Align.right 4 (toString edit.number) ++ " | " ++ edit.content

/-- The edits that lead from the old lines to the new, where the first lines have the given
number. -/
def between (number : Nat) : List String → List String → List LineEdit
  | [], [] => []
  | old :: olds, [] => ⟨.remove, number, old⟩ :: between (number + 1) olds []
  | [], new :: news => ⟨.add, number, new⟩ :: between (number + 1) [] news
  | old :: olds, new :: news =>
    if old = new then between (number + 1) olds news
    else ⟨.remove, number, old⟩ :: ⟨.add, number, new⟩ :: between (number + 1) olds news

end LineEdit

/-- The differences between the lines of two texts, one a line.  Texts can differ although their
lines do not, namely in their line ends. -/
def lineDiff (old new : String) : String :=
  Lines.join ((LineEdit.between 1 (Lines.ofString old) (Lines.ofString new)).map LineEdit.display)

end DeclLang
