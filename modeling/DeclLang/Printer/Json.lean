import DeclLang.SourceFile
import DeclLang.Text.Align

/-!
# Trees as JSON

`JsonValue` is the part of JSON that trees need, with the members of an object in a fixed order,
and `JsonValue.render` lays it out: one element or member a line, two spaces to a level, an empty
array or object without a line of its own.  In strings only the quote, the backslash and the
characters below the space are escaped.

`SourceFile.toJsonValue` names the parts of a tree, spans included, and `SourceFile.toJson` is its
text, without a line end behind it.
-/

namespace DeclLang

/-- A JSON value made of integers, strings, arrays and objects. -/
inductive JsonValue where
  | number (value : Int)
  | string (value : String)
  | array (elements : List JsonValue)
  | object (members : List (String × JsonValue))

namespace JsonValue

/-! ## Strings -/

/-- The written form of a character within a string. -/
def escape (c : Char) : List Char :=
  if c = '"' then ['\\', '"']
  else if c = '\\' then ['\\', '\\']
  else if c = '\x08' then ['\\', 'b']
  else if c = '\x0c' then ['\\', 'f']
  else if c = '\n' then ['\\', 'n']
  else if c = '\r' then ['\\', 'r']
  else if c = '\t' then ['\\', 't']
  else if c.toNat < 0x20 then
    ['\\', 'u', '0', '0', Nat.digitChar (c.toNat / 16), Nat.digitChar (c.toNat % 16)]
  else [c]

/-- The written form of a string. -/
def quote (text : String) : List Char := '"' :: text.toList.flatMap escape ++ ['"']

/-! ## Layout -/

/-- A line end and the indentation of the next line. -/
def newline (depth : Nat) : List Char := '\n' :: List.replicate (2 * depth) ' '

mutual

/-- The written form of a value whose first line is indented by `depth` levels. -/
def render (depth : Nat) : JsonValue → List Char
  | number n => (toString n).toList
  | string text => quote text
  | array [] => ['[', ']']
  | array (first :: more) =>
    '[' :: newline (depth + 1) ++ render (depth + 1) first ++ renderElements (depth + 1) more ++
      newline depth ++ [']']
  | object [] => ['\x7b', '\x7d']
  | object ((name, first) :: more) =>
    '\x7b' :: newline (depth + 1) ++ quote name ++ [':', ' '] ++ render (depth + 1) first ++
      renderMembers (depth + 1) more ++ newline depth ++ ['\x7d']

/-- The elements of an array behind the first. -/
def renderElements (depth : Nat) : List JsonValue → List Char
  | [] => []
  | next :: more =>
    ',' :: newline depth ++ render depth next ++ renderElements depth more

/-- The members of an object behind the first. -/
def renderMembers (depth : Nat) : List (String × JsonValue) → List Char
  | [] => []
  | (name, next) :: more =>
    ',' :: newline depth ++ quote name ++ [':', ' '] ++ render depth next ++
      renderMembers depth more

end

end JsonValue

/-! ## The parts of a tree -/

/-- A span as an object. -/
def Span.toJsonValue (s : Span) : JsonValue :=
  .object [("start", .number s.start), ("end", .number s.stop), ("line", .number s.line),
    ("column", .number s.column)]

/-- A literal as an object whose one member is named after the type of the literal. -/
def Literal.toJsonValue (value : Literal) : JsonValue :=
  .object [(value.kindName,
    match value with
    | integer n => .number n.toInt
    | string text => .string text)]

/-- A declaration as an object. -/
def Declaration.toJsonValue (d : Declaration) : JsonValue :=
  .object [("kind", .string d.kind.name), ("name", .string d.name),
    ("value", d.value.toJsonValue)]

/-- A part of the tree and its span as an object. -/
def Spanned.toJsonValue {α : Type} (node : α → JsonValue) (part : Spanned α) : JsonValue :=
  .object [("node", node part.node), ("span", part.span.toJsonValue)]

namespace SourceFile

/-- A tree as an object. -/
def toJsonValue (file : SourceFile) : JsonValue :=
  .object [("imports", .array (file.imports.map (Spanned.toJsonValue .string))),
    ("declarations", .array (file.declarations.map (Spanned.toJsonValue Declaration.toJsonValue)))]

/-- A tree as JSON text. -/
def toJson (file : SourceFile) : String := String.ofList (file.toJsonValue.render 0)

end SourceFile

end DeclLang
