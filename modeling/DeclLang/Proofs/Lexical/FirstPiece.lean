import DeclLang.Proofs.Lexical.Spelling

/-!
# The first piece of a text

`Piece.next_eq_iff` says that cutting off the first piece of a text finds the one way in which the
text can begin with a piece that is spelled as its role says.  `Piece.spells_next` is the one
direction, and it is all that the longest match means.  `Spells.next_eq` is the other, by which a
text that was put together from pieces is taken apart again.
-/

namespace DeclLang

/-! ## The piece that is cut off is spelled right -/

namespace Piece

/-- A line comment goes up to the end of its line, or of the text. -/
theorem spells_lineComment (cs : List Char) :
    Spells (lineComment cs).1.role (lineComment cs).1.text (lineComment cs).2 := by
  refine .lineComment ?_ ?_
  · intro hfeed
    simpa using mem_takeWhile _ hfeed
  · intro c hc
    simpa using endsRun_dropWhile _ _ c hc

/-- A block comment goes up to the first `*/` behind its beginning.  Without one it goes up to the
end of the text, and it is an error. -/
theorem spells_blockComment (cs : List Char) :
    Spells (blockComment cs).1.role (blockComment cs).1.text (blockComment cs).2 := by
  unfold blockComment
  split
  · next body rest h =>
    obtain ⟨inner, rfl, hinner⟩ := unclosed_of_splitComment h
    exact .blockComment hinner
  · next h => exact .openComment (splitComment_eq_none_iff.1 h)

/-- What begins with a quote is a string up to the first such quote that no backslash stands before.
If the line or the text ends before one, also right behind a backslash, it is an error up to
there. -/
theorem spells_quoted (q : QuoteStyle) (cs : List Char) :
    Spells (quoted q cs).1.role (quoted q cs).1.text (quoted q cs).2 := by
  have hend := Quoted.body_splitBody q cs
  unfold quoted
  dsimp only
  split
  · next h =>
    rw [h] at hend
    rcases hend with ⟨value, hbody, -⟩ | ⟨raw, value, hbody, hraw, hrest⟩
    · exact .openString hbody (by simp [AtLineEnd])
    · rw [hraw]; exact .openEscape hbody hrest
  · next c rest h =>
    rw [h] at hend
    split
    · next hc =>
      subst hc
      rcases hend with ⟨value, hbody, -⟩ | ⟨raw, value, hbody, hraw, hrest⟩
      · refine .string ?_
        rwa [hbody.decodeBody_eq, String.toList_ofList]
      · exact absurd (hrest _ rfl) q.delimiter_ne_lineFeed
    · next hc =>
      rcases hend with ⟨value, hbody, hstop⟩ | ⟨raw, value, hbody, hraw, hrest⟩
      · refine .openString hbody (hstop.resolve_left ?_)
        simpa using hc
      · rw [hraw]; exact .openEscape hbody hrest

/-- What begins with a digit is a number that goes on as long as there are digits. -/
theorem spells_number {c : Char} (hc : c.isDigit = true) (cs : List Char) :
    Spells (number c cs).1.role (number c cs).1.text (number c cs).2 := by
  have hdigits : IsNumber (String.ofList (c :: cs.takeWhile Char.isDigit)).toList := by
    rw [String.toList_ofList]
    refine ⟨c, _, rfl, ?_⟩
    rw [List.forall_mem_cons]
    exact ⟨hc, mem_takeWhile⟩
  have hspells := Spells.number hdigits (endsRun_dropWhile Char.isDigit cs)
  rwa [String.toList_ofList] at hspells

/-- What begins as a name does goes on as long as a name can; it is a reserved word if it is spelled
as one of them, and otherwise a name. -/
theorem spells_word {c : Char} (hc : isNameStart c = true) (cs : List Char) :
    Spells (word c cs).1.role (word c cs).1.text (word c cs).2 := by
  have hrest := endsRun_dropWhile isNamePart cs
  unfold word wordKind
  dsimp only
  split
  · next k hk =>
    have hk := Keyword.ofSpelling?_eq_some_iff.1 hk
    have hspells := Spells.keyword (k := k) hrest
    rwa [hk, String.toList_ofList] at hspells
  · next hnone =>
    have hname : IsName (String.ofList (c :: cs.takeWhile isNamePart)) := by
      constructor
      · rw [String.toList_ofList]
        exact ⟨c, _, rfl, hc, mem_takeWhile⟩
      · intro k hk
        rw [Keyword.ofSpelling?_eq_some_iff.2 hk] at hnone
        cases hnone
    have hspells := Spells.name hname hrest
    rwa [String.toList_ofList] at hspells

/-- The first piece of a text is spelled as its role says. -/
theorem spells_next (c : Char) (cs : List Char) :
    Spells (next c cs).1.role (next c cs).1.text (next c cs).2 := by
  unfold next
  split
  · next hblank => exact .blank (by simpa [isBlank, or_assoc] using hblank)
  split
  · exact spells_lineComment _
  split
  · exact spells_blockComment _
  split
  · next hmark => subst hmark; exact .mark
  split
  · next hdigit => exact spells_number hdigit cs
  split
  · next hstart => exact spells_word hstart cs
  split
  · next q _ => exact spells_quoted q cs
  · next hblank hline hblock hmark hdigit hstart _ hquote =>
    refine .stray ?_
    rintro (h | h | h | h | ⟨q, h⟩ | ⟨h, h' | h'⟩)
    · exact hblank h
    · exact hmark h
    · exact hdigit h
    · exact hstart h
    · rw [QuoteStyle.ofDelimiter?_eq_some_iff.2 h.symm] at hquote
      cases hquote
    · exact hline ⟨h, h'⟩
    · exact hblock ⟨h, h'⟩

end Piece

namespace Piece

/-! ## Which kind of piece a character begins -/

theorem next_of_isNameStart {c : Char} (h : isNameStart c = true) (cs : List Char) :
    next c cs = word c cs := by
  have hblank := isBlank_of_isNamePart (isNamePart_of_isNameStart h)
  have hdigit := isDigit_of_isNameStart h
  have hslash : c ≠ '/' := by
    rintro rfl
    exact absurd h (by decide)
  have hmark : c ≠ '=' := by
    rintro rfl
    exact absurd h (by decide)
  simp [next, hblank, hslash, hmark, hdigit, h]

theorem next_of_isDigit {c : Char} (h : c.isDigit = true) (cs : List Char) :
    next c cs = number c cs := by
  have hblank := isBlank_of_isNamePart (isNamePart_of_isDigit h)
  have hslash : c ≠ '/' := by
    rintro rfl
    exact absurd h (by decide)
  have hmark : c ≠ '=' := by
    rintro rfl
    exact absurd h (by decide)
  simp [next, hblank, hslash, hmark, h]

theorem next_delimiter (q : QuoteStyle) (cs : List Char) :
    next q.delimiter cs = quoted q cs := by
  cases q <;> rfl

/-! ## A text that is spelled as a role says is cut off -/

theorem wordKind_spelling (k : Keyword) : wordKind k.spelling = .keyword k := by
  rw [wordKind, Keyword.ofSpelling?_eq_some_iff.2 rfl]

theorem wordKind_of_isName {name : String} (h : IsName name) : wordKind name = .ident name := by
  have hnone : Keyword.ofSpelling? name = none := by
    rw [Option.eq_none_iff_forall_ne_some]
    intro k hk
    exact h.2 k (Keyword.ofSpelling?_eq_some_iff.1 hk)
  rw [wordKind, hnone]

/-- A word with no more of a word behind it is cut off as a whole, whether it is reserved or not. -/
theorem next_eq_word {word : String} {rest cs : List Char} {c : Char} (h : IsWord word.toList)
    (hrest : EndsRun isNamePart rest) (hcs : word.toList ++ rest = c :: cs) :
    next c cs = (⟨.token (wordKind word), word.toList⟩, rest) := by
  obtain ⟨d, ds, hword, hd, hds⟩ := h
  rw [hword, List.cons_append] at hcs
  obtain ⟨rfl, rfl⟩ := List.cons.inj hcs
  rw [next_of_isNameStart hd, Piece.word, takeWhile_append_of_endsRun hds hrest,
    dropWhile_append_of_endsRun hds hrest, ← hword, String.ofList_toList]

/-- Digits with no digit behind them are cut off together. -/
theorem next_eq_number {digits : String} {rest cs : List Char} {c : Char}
    (h : IsNumber digits.toList) (hrest : EndsRun Char.isDigit rest)
    (hcs : digits.toList ++ rest = c :: cs) :
    next c cs = (⟨.token (.int digits), digits.toList⟩, rest) := by
  obtain ⟨d, ds, hdigits, hall⟩ := h
  rw [hdigits, List.cons_append] at hcs
  obtain ⟨rfl, rfl⟩ := List.cons.inj hcs
  obtain ⟨hd, hds⟩ := List.forall_mem_cons.1 hall
  rw [next_of_isDigit hd, number, takeWhile_append_of_endsRun hds hrest,
    dropWhile_append_of_endsRun hds hrest, ← hdigits, String.ofList_toList]

/-- Behind `//`, everything up to the end of the line is cut off. -/
theorem lineComment_eq {body rest : List Char} (hbody : '\n' ∉ body) (hrest : AtLineEnd rest) :
    lineComment (body ++ rest) = (⟨.trivia, '/' :: '/' :: body⟩, rest) := by
  have hrun : ∀ d ∈ body, (d != '\n') = true := by
    intro d hd
    simpa using ne_of_mem_of_not_mem hd hbody
  have hend : EndsRun (· != '\n') rest := by
    intro d hd
    simpa using hrest d hd
  rw [lineComment, takeWhile_append_of_endsRun hrun hend, dropWhile_append_of_endsRun hrun hend]

/-- Behind `/*`, everything is cut off up to a `*/` that is the first one. -/
theorem blockComment_eq {body : List Char} (hbody : Unclosed (body ++ ['*'])) (rest : List Char) :
    blockComment (body ++ ['*', '/'] ++ rest) =
      (⟨.trivia, '/' :: '*' :: (body ++ ['*', '/'])⟩, rest) := by
  have hsplit := splitComment_of_unclosed hbody rest
  rw [blockComment, List.append_assoc, List.cons_append, List.cons_append, List.nil_append, hsplit]

theorem blockComment_eq_unterminated {body : List Char} (hbody : Unclosed body) :
    blockComment body = (⟨.fault .unterminatedComment, '/' :: '*' :: body⟩, []) := by
  rw [blockComment, splitComment_eq_none_iff.2 hbody]

/-- A body with its closing quote is cut off as a string, and the value of the string is what the
body stands for. -/
theorem quoted_eq_string {q : QuoteStyle} {raw value : List Char} (hbody : Body q raw value)
    (rest : List Char) :
    quoted q (raw ++ [q.delimiter] ++ rest) =
      (⟨.token (.string (String.ofList value)), q.delimiter :: (raw ++ [q.delimiter])⟩, rest) := by
  have hhead : (q.delimiter :: rest).head? = some q.delimiter := rfl
  have hsplit : Quoted.splitBody q (raw ++ [q.delimiter] ++ rest) = (raw, q.delimiter :: rest) := by
    rw [List.append_assoc, hbody.splitBody_append, List.singleton_append,
      Quoted.splitBody_of_head (.inl hhead), List.append_nil]
  unfold quoted
  rw [hsplit]
  simp [hbody.decodeBody_eq]

/-- A body that ends with its line, or with the text, is cut off as a string that was never
closed. -/
theorem quoted_eq_unterminated {q : QuoteStyle} {cs raw rest : List Char}
    (hsplit : Quoted.splitBody q cs = (raw, rest)) (hrest : AtLineEnd rest) :
    quoted q cs = (⟨.fault .unterminatedString, q.delimiter :: raw⟩, rest) := by
  cases rest with
  | nil => simp [quoted, hsplit]
  | cons c rest =>
    obtain rfl : c = '\n' := hrest c rfl
    simp [quoted, hsplit, q.delimiter_ne_lineFeed.symm]

/-- A character that begins nothing is cut off alone. -/
theorem next_eq_stray {c : Char} {rest : List Char} (h : ¬ Begins c rest) :
    next c rest = (⟨.fault (.unexpectedChar c), [c]⟩, rest) := by
  simp only [Begins, not_or, not_and, not_exists] at h
  obtain ⟨hblank, hmark, hdigit, hstart, hquote, hslash⟩ := h
  have hline : ¬ (c = '/' ∧ rest.head? = some '/') := fun h => (hslash h.1).1 h.2
  have hblock : ¬ (c = '/' ∧ rest.head? = some '*') := fun h => (hslash h.1).2 h.2
  have hnone : QuoteStyle.ofDelimiter? c = none := by
    rw [Option.eq_none_iff_forall_ne_some]
    intro q hq
    exact hquote q (QuoteStyle.ofDelimiter?_eq_some_iff.1 hq).symm
  rw [next, if_neg hblank, if_neg hline, if_neg hblock, if_neg hmark, if_neg hdigit, if_neg hstart,
    hnone]

end Piece

/-- A text that is spelled as a role says, with what may follow it, is cut off with that role. -/
theorem Spells.next_eq {role : Piece.Role} {text rest cs : List Char} {c : Char}
    (h : Spells role text rest) (hcs : text ++ rest = c :: cs) :
    Piece.next c cs = (⟨role, text⟩, rest) := by
  cases h with
  | keyword hrest =>
    rw [Piece.next_eq_word (isWord_spelling _) hrest hcs, Piece.wordKind_spelling]
  | name hname hrest =>
    rw [Piece.next_eq_word hname.1 hrest hcs, Piece.wordKind_of_isName hname]
  | number hdigits hrest => exact Piece.next_eq_number hdigits hrest hcs
  | @mark m =>
    cases m
    obtain ⟨rfl, rfl⟩ := List.cons.inj hcs
    rfl
  | blank h =>
    obtain ⟨rfl, rfl⟩ := List.cons.inj hcs
    rw [Piece.next, if_pos (isBlank_iff.2 h)]
    rfl
  | lineComment hbody hrest =>
    obtain ⟨rfl, rfl⟩ := List.cons.inj hcs
    exact Piece.lineComment_eq hbody hrest
  | blockComment hbody =>
    obtain ⟨rfl, rfl⟩ := List.cons.inj hcs
    exact Piece.blockComment_eq hbody rest
  | openComment hbody =>
    obtain ⟨rfl, rfl⟩ := List.cons.inj hcs
    rw [List.append_eq, List.append_nil]
    exact Piece.blockComment_eq_unterminated hbody
  | string hbody =>
    obtain ⟨rfl, rfl⟩ := List.cons.inj hcs
    rw [Piece.next_delimiter]
    simpa using Piece.quoted_eq_string hbody rest
  | openString hbody hrest =>
    obtain ⟨rfl, rfl⟩ := List.cons.inj hcs
    rw [Piece.next_delimiter]
    refine Piece.quoted_eq_unterminated ?_ hrest
    simpa [Quoted.splitBody_of_head (.inr hrest)] using hbody.splitBody_append rest
  | openEscape hbody hrest =>
    obtain ⟨rfl, rfl⟩ := List.cons.inj hcs
    rw [Piece.next_delimiter]
    refine Piece.quoted_eq_unterminated ?_ hrest
    simpa [Quoted.splitBody_backslash hrest] using hbody.splitBody_append ('\\' :: rest)
  | stray h =>
    obtain ⟨rfl, rfl⟩ := List.cons.inj hcs
    exact Piece.next_eq_stray h

/-- The first piece of a text is the one piece that the text begins with. -/
theorem Piece.next_eq_iff {c : Char} {cs text rest : List Char} {role : Piece.Role} :
    next c cs = (⟨role, text⟩, rest) ↔ c :: cs = text ++ rest ∧ Spells role text rest := by
  constructor
  · intro h
    have happend := next_append c cs
    have hspells := spells_next c cs
    rw [h] at happend hspells
    exact ⟨happend.symm, hspells⟩
  · rintro ⟨hcs, hspells⟩
    exact hspells.next_eq hcs.symm

end DeclLang
