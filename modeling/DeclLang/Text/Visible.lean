import DeclLang.Text.Unprintable

/-!
# Text shown inside a message

A message shows a character between single quotes and a text between double quotes, with
everything escaped that would be misread there: the enclosing quote, the backslash, the control
characters that have a short escape, and every character that is unprintable.  The other quote is
shown as it is.
-/

namespace DeclLang

namespace Visible

/-- How one character is shown between two `quote` characters. -/
def escape (quote : Char) (c : Char) : List Char :=
  if c = '\x00' then ['\\', '0']
  else if c = '\t' then ['\\', 't']
  else if c = '\r' then ['\\', 'r']
  else if c = '\n' then ['\\', 'n']
  else if c = '\\' ∨ c = quote then ['\\', c]
  else if isUnprintable c then '\\' :: 'u' :: '\x7b' :: Nat.toDigits 16 c.toNat ++ ['\x7d']
  else [c]

/-- A character between single quotes. -/
def char (c : Char) : String :=
  String.ofList ('\x27' :: escape '\x27' c ++ ['\x27'])

/-- A text between double quotes. -/
def string (text : String) : String :=
  String.ofList ('"' :: text.toList.flatMap (escape '"') ++ ['"'])

end Visible

end DeclLang
