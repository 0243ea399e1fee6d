/-!
# Text in columns

A text is brought to a width with spaces before or behind it.  A text that is already as wide
stays as it is.
-/

namespace DeclLang

namespace Align

/-- A row of spaces. -/
def spaces (count : Nat) : String := String.ofList (List.replicate count ' ')

/-- The text at the right of a column. -/
def right (width : Nat) (text : String) : String := spaces (width - text.length) ++ text

/-- The text at the left of a column. -/
def left (width : Nat) (text : String) : String := text ++ spaces (width - text.length)

end Align

end DeclLang
