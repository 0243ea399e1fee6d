import DeclLang.SyntaxError
import DeclLang.Text.Quoted

/-!
# Cutting a text into pieces

A source text is a row of pieces.  A piece is a token, a stretch that is no token, or *trivia*: a
blank character or a comment, which the grammar does not see.  Where a piece ends depends on the
text from its first character on and on nothing before it, and a piece is as long as it can be.

`Piece.next` cuts off the first piece and `pieces` cuts up the whole text.  Every piece has at
least one character (`Piece.next_text_ne_nil`), and no character is lost or made up
(`Piece.next_append`, `flatMap_text_pieces`).
-/

namespace DeclLang

/-- What a piece of text is: trivia, a token of some kind, or no token for some reason. -/
inductive Piece.Role where
  | trivia
  | token (kind : Token.Kind)
  | fault (fault : LexicalFault)
deriving DecidableEq

/-- A stretch of text together with what it is. -/
structure Piece where
  /-- What the text is. -/
  role : Piece.Role
  /-- The characters of the piece. -/
  text : List Char
deriving DecidableEq

/-! ## Classes of characters -/

/-- The characters between tokens that are skipped one by one. -/
def isBlank (c : Char) : Bool := c == ' ' || c == '\t' || c == '\r' || c == '\n'

/-- The characters that a name begins with. -/
def isNameStart (c : Char) : Bool := c.isAlpha || c == '_'

/-- The characters that a name goes on with. -/
def isNamePart (c : Char) : Bool := c.isAlphanum || c == '_'

namespace Piece

/-! ## The kinds of pieces

Each of these functions gets the text behind what already shows the kind of the piece, and
answers with the piece and the text behind it. -/

/-- A line comment goes on to the end of its line; the line feed is not part of it. -/
def lineComment (cs : List Char) : Piece × List Char :=
  (⟨.trivia, '/' :: '/' :: cs.takeWhile (· != '\n')⟩, cs.dropWhile (· != '\n'))

/-- Splits a text behind the first end of a block comment, if there is one. -/
def splitComment : List Char → Option (List Char × List Char)
  | [] => none
  | '*' :: '/' :: cs => some (['*', '/'], cs)
  | c :: cs => (splitComment cs).map fun split => (c :: split.1, split.2)

/-- A block comment goes on to the first `*/`; without one, the rest of the text is in error. -/
def blockComment (cs : List Char) : Piece × List Char :=
  match splitComment cs with
  | some (body, rest) => (⟨.trivia, '/' :: '*' :: body⟩, rest)
  | none => (⟨.fault .unterminatedComment, '/' :: '*' :: cs⟩, [])

/-- A string goes on to its delimiter.  If its line ends before that, all of it up to the line
end is in error. -/
def quoted (q : QuoteStyle) (cs : List Char) : Piece × List Char :=
  let split := Quoted.splitBody q cs
  match split.2 with
  | [] => (⟨.fault .unterminatedString, q.delimiter :: split.1⟩, [])
  | c :: rest =>
    if c = q.delimiter then
      (⟨.token (.string (String.ofList (Quoted.decodeBody q split.1))),
        q.delimiter :: split.1 ++ [q.delimiter]⟩, rest)
    else (⟨.fault .unterminatedString, q.delimiter :: split.1⟩, c :: rest)

/-- A number is a run of digits, with no sign and no separators. -/
def number (c : Char) (cs : List Char) : Piece × List Char :=
  let digits := c :: cs.takeWhile Char.isDigit
  (⟨.token (.int (String.ofList digits)), digits⟩, cs.dropWhile Char.isDigit)

/-- What a word is: the reserved word that is spelled so, or else a name. -/
def wordKind (word : String) : Token.Kind :=
  match Keyword.ofSpelling? word with
  | some keyword => .keyword keyword
  | none => .ident word

/-- A word is a run of name characters. -/
def word (c : Char) (cs : List Char) : Piece × List Char :=
  let letters := c :: cs.takeWhile isNamePart
  (⟨.token (wordKind (String.ofList letters)), letters⟩, cs.dropWhile isNamePart)

/-! ## The first piece of a text -/

/-- The first piece of the text `c :: cs`, and the text behind it. -/
def next (c : Char) (cs : List Char) : Piece × List Char :=
  if isBlank c then (⟨.trivia, [c]⟩, cs)
  else if c = '/' ∧ cs.head? = some '/' then lineComment cs.tail
  else if c = '/' ∧ cs.head? = some '*' then blockComment cs.tail
  else if c = '=' then (⟨.token (.punctuation .eq), [c]⟩, cs)
  else if c.isDigit then number c cs
  else if isNameStart c then word c cs
  else match QuoteStyle.ofDelimiter? c with
    | some q => quoted q cs
    | none => (⟨.fault (.unexpectedChar c), [c]⟩, cs)

theorem splitComment_append {cs body rest : List Char} (h : splitComment cs = some (body, rest)) :
    body ++ rest = cs := by
  induction cs using splitComment.induct generalizing body with
  | case1 => simp [splitComment] at h
  | case2 cs =>
    obtain ⟨rfl, rfl⟩ : ['*', '/'] = body ∧ cs = rest := by simpa [splitComment] using h
    rfl
  | case3 c cs hne ih =>
    rw [splitComment.eq_3 _ _ hne] at h
    obtain ⟨⟨b, r⟩, hb, hbr⟩ := Option.map_eq_some_iff.1 h
    obtain ⟨rfl, rfl⟩ : c :: b = body ∧ r = rest := by simpa using hbr
    simp [ih hb]

theorem lineComment_append (cs : List Char) :
    (lineComment cs).1.text ++ (lineComment cs).2 = '/' :: '/' :: cs := by
  simp [lineComment]

theorem blockComment_append (cs : List Char) :
    (blockComment cs).1.text ++ (blockComment cs).2 = '/' :: '*' :: cs := by
  unfold blockComment
  split
  · next h => simp [← splitComment_append h]
  · simp

theorem quoted_append (q : QuoteStyle) (cs : List Char) :
    (quoted q cs).1.text ++ (quoted q cs).2 = q.delimiter :: cs := by
  have hsplit := Quoted.splitBody_append q cs
  unfold quoted
  dsimp only
  split
  · next h => rw [h, List.append_nil] at hsplit; simp [hsplit]
  · next c rest h =>
    rw [h] at hsplit
    split
    · next hc => subst hc; simp [hsplit]
    · simp [hsplit]

/-- Cutting off a piece loses nothing. -/
theorem next_append (c : Char) (cs : List Char) :
    (next c cs).1.text ++ (next c cs).2 = c :: cs := by
  unfold next
  split
  · rfl
  split
  · next h =>
    obtain ⟨rfl, hd⟩ := h
    obtain ⟨ds, rfl⟩ := List.head?_eq_some_iff.1 hd
    exact lineComment_append ds
  split
  · next h =>
    obtain ⟨rfl, hd⟩ := h
    obtain ⟨ds, rfl⟩ := List.head?_eq_some_iff.1 hd
    exact blockComment_append ds
  split
  · rfl
  split
  · simp [number]
  split
  · simp [word]
  split
  · next q hq =>
    obtain rfl := QuoteStyle.ofDelimiter?_eq_some_iff.1 hq
    exact quoted_append q cs
  · rfl

theorem blockComment_text_ne_nil (cs : List Char) : (blockComment cs).1.text ≠ [] := by
  unfold blockComment
  split <;> simp

theorem quoted_text_ne_nil (q : QuoteStyle) (cs : List Char) : (quoted q cs).1.text ≠ [] := by
  unfold quoted
  dsimp only
  split
  · simp
  · split <;> simp

/-- A piece has at least one character. -/
theorem next_text_ne_nil (c : Char) (cs : List Char) : (next c cs).1.text ≠ [] := by
  unfold next
  split
  · simp
  split
  · simp [lineComment]
  split
  · exact blockComment_text_ne_nil _
  split
  · simp
  split
  · simp [number]
  split
  · simp [word]
  split
  · exact quoted_text_ne_nil _ _
  · simp

theorem next_snd_length_lt (c : Char) (cs : List Char) :
    (next c cs).2.length < (c :: cs).length := by
  have hlength := congrArg List.length (next_append c cs)
  have hpos := List.length_pos_iff.2 (next_text_ne_nil c cs)
  rw [List.length_append] at hlength
  omega

end Piece

/-! ## The pieces of a text -/

/-- All pieces of a text, in order. -/
def pieces : List Char → List Piece
  | [] => []
  | c :: cs =>
    let split := Piece.next c cs
    split.1 :: pieces split.2
termination_by cs => cs.length
decreasing_by exact Piece.next_snd_length_lt c cs

@[simp]
theorem pieces_nil : pieces [] = [] := by
  rw [pieces]

theorem pieces_cons (c : Char) (cs : List Char) :
    pieces (c :: cs) = (Piece.next c cs).1 :: pieces (Piece.next c cs).2 := by
  rw [pieces]

/-- The texts of the pieces, put together, are the text that was cut up. -/
theorem flatMap_text_pieces (cs : List Char) : (pieces cs).flatMap Piece.text = cs := by
  induction cs using pieces.induct with
  | case1 => simp
  | case2 c cs split ih => rw [pieces_cons, List.flatMap_cons, ih, Piece.next_append]

end DeclLang
