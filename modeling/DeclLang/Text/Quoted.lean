/-!
# Quoted strings

The written form of a string value: a delimiter, the value with some of its characters escaped,
and the delimiter again.  `Quoted.encode` writes a value.  Reading is in two steps: `splitBody`
finds where the written body ends, and `decodeBody` undoes the escapes in it.  What reading
accepts is wider than what writing produces: a backslash before a character that has no escape
stands for itself.

* `Quoted.splitBody_append` says that splitting loses nothing.
* `Quoted.splitBody_encodeBody` and `Quoted.decodeBody_encodeBody` say that the two steps undo
  the writing, whatever text follows.
-/

namespace DeclLang

/-- Which of the two quote characters encloses a string. -/
inductive QuoteStyle where
  | double
  | single
deriving DecidableEq

namespace QuoteStyle

/-- The quote character of a style. -/
def delimiter : QuoteStyle → Char
  | double => '"'
  | single => '\x27'

/-- The style that a quote character belongs to. -/
def ofDelimiter? (c : Char) : Option QuoteStyle :=
  if c = double.delimiter then some double
  else if c = single.delimiter then some single
  else none

/-- The name under which tools show a style. -/
def name : QuoteStyle → String
  | double => "Double"
  | single => "Single"

theorem ofDelimiter?_eq_some_iff {c : Char} {q : QuoteStyle} :
    ofDelimiter? c = some q ↔ q.delimiter = c := by
  constructor
  · intro h
    unfold ofDelimiter? at h
    split at h
    · cases h; simp [*]
    · split at h
      · cases h; simp [*]
      · cases h
  · rintro rfl
    cases q <;> rfl

end QuoteStyle

namespace Quoted

/-! ## Writing -/

/-- The written form of one character between delimiters of the style `q`. -/
def escape (q : QuoteStyle) (c : Char) : List Char :=
  if c = '\\' then ['\\', '\\']
  else if c = '\n' then ['\\', 'n']
  else if c = '\t' then ['\\', 't']
  else if c = '\r' then ['\\', 'r']
  else if c = '\x00' then ['\\', '0']
  else if c = q.delimiter then ['\\', c]
  else [c]

/-- The written form of a value, without the delimiters. -/
def encodeBody (q : QuoteStyle) (value : List Char) : List Char :=
  value.flatMap (escape q)

/-- The written form of a value, delimiters included. -/
def encode (q : QuoteStyle) (value : String) : String :=
  String.ofList (q.delimiter :: encodeBody q value.toList ++ [q.delimiter])

/-! ## Reading -/

/-- The character that a backslash and `c` stand for together, if they stand for one. -/
def escaped? (q : QuoteStyle) (c : Char) : Option Char :=
  if c = 'n' then some '\n'
  else if c = 't' then some '\t'
  else if c = 'r' then some '\r'
  else if c = '0' then some '\x00'
  else if c = '\\' then some '\\'
  else if c = q.delimiter then some c
  else none

/-- Splits a text behind an opening delimiter into the written body and what is left.  The body
ends before a delimiter that no backslash precedes, before a line feed, or with the text; a
backslash takes the next character into the body with it, unless that is a line feed. -/
def splitBody (q : QuoteStyle) : List Char → List Char × List Char
  | [] => ([], [])
  | '\\' :: c :: cs =>
    if c = '\n' then (['\\'], c :: cs)
    else let split := splitBody q cs; ('\\' :: c :: split.1, split.2)
  | c :: cs =>
    if c = q.delimiter ∨ c = '\n' then ([], c :: cs)
    else let split := splitBody q cs; (c :: split.1, split.2)

/-- The value that a written body stands for.  A backslash before a character without an escape
is kept, and so is that character. -/
def decodeBody (q : QuoteStyle) : List Char → List Char
  | [] => []
  | '\\' :: c :: cs => ((escaped? q c).elim ['\\', c] fun d => [d]) ++ decodeBody q cs
  | c :: cs => c :: decodeBody q cs

theorem splitBody_append (q : QuoteStyle) (cs : List Char) :
    (splitBody q cs).1 ++ (splitBody q cs).2 = cs := by
  fun_induction splitBody q cs with
  | case1 => rfl
  | case2 => rfl
  | case3 c cs _ split ih => simpa [split] using ih
  | case4 => rfl
  | case5 c cs _ _ split ih => simpa [split] using ih

/-! ## Reading undoes writing -/

theorem encodeBody_cons (q : QuoteStyle) (c : Char) (cs : List Char) :
    encodeBody q (c :: cs) = escape q c ++ encodeBody q cs :=
  List.flatMap_cons

/-- The written body ends where the delimiter was put, whatever text follows. -/
theorem splitBody_encodeBody (q : QuoteStyle) (value rest : List Char) :
    splitBody q (encodeBody q value ++ q.delimiter :: rest) =
      (encodeBody q value, q.delimiter :: rest) := by
  induction value with
  | nil => cases q <;> simp [encodeBody, splitBody, QuoteStyle.delimiter]
  | cons c cs ih =>
    rw [encodeBody_cons, List.append_assoc]
    unfold escape
    split
    · simp [splitBody, ih]
    split
    · simp [splitBody, ih]
    split
    · simp [splitBody, ih]
    split
    · simp [splitBody, ih]
    split
    · simp [splitBody, ih]
    split
    · next h => subst h; cases q <;> simp_all [splitBody, QuoteStyle.delimiter]
    · simp_all [splitBody]

/-- A written body stands for the value that was written. -/
theorem decodeBody_encodeBody (q : QuoteStyle) (value : List Char) :
    decodeBody q (encodeBody q value) = value := by
  induction value with
  | nil => rfl
  | cons c cs ih =>
    rw [encodeBody_cons]
    unfold escape
    split
    · simp_all [decodeBody, escaped?]
    split
    · simp_all [decodeBody, escaped?]
    split
    · simp_all [decodeBody, escaped?]
    split
    · simp_all [decodeBody, escaped?]
    split
    · simp_all [decodeBody, escaped?]
    split
    · next h => subst h; cases q <;> simp_all [decodeBody, escaped?, QuoteStyle.delimiter]
    · simp_all [decodeBody]

end Quoted

end DeclLang
