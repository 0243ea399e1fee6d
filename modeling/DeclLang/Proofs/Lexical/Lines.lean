import DeclLang.Proofs.Lexical.Truncation

/-!
# Texts put together at a line end

A text can be cut at a line feed and read in two parts.  The lexemes of the whole are those of the
first part, without the end of input, and then those of the second, moved along by the bytes and
the lines that come before it (`lexemes_of_lines`).  So whatever is wrong with the first part stays
there.

* No piece but an open block comment goes on over a line feed, and none that ends where its text
  ends looks at what comes behind but for a line end, so a piece of the first part is the same piece
  when a line feed and more text come behind it (`Spells.before_lineFeed`).
* Behind a line feed the column is that of the beginning of a text, so a reading of the second part
  moves along as a whole (`Layout.shift`).

Two conditions are needed.  An open block comment goes on to the end of the second part.  And a
byte order mark is passed over at the beginning of a text only.
-/

namespace DeclLang

/-! ## Moving along -/

/-- The place as it is when `bytes` bytes on `lines` lines come before the text. -/
def Position.shift (bytes lines : Nat) (p : Position) : Position :=
  ⟨p.offset + bytes, p.line + lines, p.column⟩

/-- The span as it is when `bytes` bytes on `lines` lines come before the text. -/
def Span.shift (bytes lines : Nat) (s : Span) : Span :=
  ⟨s.start + bytes, s.stop + bytes, s.line + lines, s.column⟩

/-- The lexeme as it is when `bytes` bytes on `lines` lines come before the text. -/
def Lexeme.shift (bytes lines : Nat) : Lexeme → Lexeme
  | token t => token ⟨t.kind, t.span.shift bytes lines⟩
  | error e => error ⟨e.fault, e.span.shift bytes lines⟩

section Shift

variable {bytes lines : Nat}

theorem Position.shift_advance (p : Position) (c : Char) :
    (p.shift bytes lines).advance c = (p.advance c).shift bytes lines := by
  by_cases hc : c = '\n'
  · subst hc
    simp only [advance_lineFeed, shift, Position.mk.injEq, and_true]
    omega
  · simp only [advance_of_ne hc, shift, Position.mk.injEq, and_true]
    omega

theorem Position.shift_after (p : Position) (cs : List Char) :
    (p.shift bytes lines).after cs = (p.after cs).shift bytes lines := by
  induction cs generalizing p with
  | nil => rfl
  | cons c cs ih => rw [after_cons, after_cons, shift_advance, ih]

theorem Span.shift_between (p q : Position) :
    between (p.shift bytes lines) (q.shift bytes lines) = (between p q).shift bytes lines := rfl

theorem Lexeme.role_shift (lexeme : Lexeme) : (lexeme.shift bytes lines).role = lexeme.role := by
  cases lexeme <;> rfl

theorem Lexeme.span_shift (lexeme : Lexeme) :
    (lexeme.shift bytes lines).span = lexeme.span.shift bytes lines := by
  cases lexeme <;> rfl

/-- A layout moves along with the place where its text begins. -/
theorem Layout.shift {p : Position} {cs : List Char} {lexemes : List Lexeme}
    (h : Layout p cs lexemes) :
    Layout (p.shift bytes lines) cs (lexemes.map (Lexeme.shift bytes lines)) := by
  induction h with
  | done => exact .done
  | trivia hspells _ ih =>
    refine .trivia hspells ?_
    rwa [Position.shift_after]
  | lexeme hspells hspan _ ih =>
    refine .lexeme ?_ ?_ ?_
    · rwa [Lexeme.role_shift]
    · rw [Lexeme.span_shift, hspan, Position.shift_after, Span.shift_between]
    · rwa [Position.shift_after]

end Shift

/-! ## A line feed behind a text -/

/-- A piece at the end of a text is the same piece before a line feed, unless it is an open block
comment. -/
theorem Spells.before_lineFeed_of_end {role : Piece.Role} {text : List Char}
    (h : Spells role text []) (hrole : role ≠ .fault .unterminatedComment) (ds : List Char) :
    Spells role text ('\n' :: ds) := by
  have hline : AtLineEnd ('\n' :: ds) := by simp [AtLineEnd]
  have hname : EndsRun isNamePart ('\n' :: ds) := endsRun_cons.2 (by decide)
  have hdigit : EndsRun Char.isDigit ('\n' :: ds) := endsRun_cons.2 (by decide)
  cases h with
  | blank h => exact .blank h
  | lineComment hbody => exact .lineComment hbody hline
  | blockComment hbody => exact .blockComment hbody
  | keyword => exact .keyword hname
  | name h => exact .name h hname
  | number h => exact .number h hdigit
  | mark => exact .mark
  | string hbody => exact .string hbody
  | openString hbody => exact .openString hbody hline
  | openEscape hbody => exact .openEscape hbody hline
  | openComment => exact absurd rfl hrole
  | stray h =>
    -- A slash that stands alone does so before a line feed too.
    refine .stray ?_
    simpa [Begins] using h

theorem Spells.before_lineFeed {role : Piece.Role} {text rest : List Char}
    (h : Spells role text rest) (hrole : role ≠ .fault .unterminatedComment) (ds : List Char) :
    Spells role text (rest ++ '\n' :: ds) := by
  by_cases hrest : rest = []
  · subst hrest
    exact h.before_lineFeed_of_end hrole ds
  · exact h.of_head (List.head?_append_of_ne_nil _ hrest)

/-- A text, a line feed and another text have the lexemes of the one and then of the other. -/
theorem Layout.append_lineFeed {p : Position} {cs ds : List Char} {lexemes more : List Lexeme}
    (h : Layout p cs lexemes) (hmore : Layout ((p.after cs).advance '\n') ds more)
    (hclosed : ∀ lexeme ∈ lexemes, lexeme.role ≠ .fault .unterminatedComment) :
    Layout p (cs ++ '\n' :: ds) (lexemes.dropLast ++ more) := by
  induction h with
  | done => exact @Layout.trivia _ ['\n'] _ _ (.blank (by simp)) hmore
  | trivia hspells _ ih =>
    rw [Position.after_append] at hmore
    rw [List.append_assoc]
    refine .trivia (hspells.before_lineFeed ?_ ds) (ih hmore hclosed)
    simp
  | lexeme hspells hspan later ih =>
    obtain ⟨hlexeme, hlexemes⟩ := List.forall_mem_cons.1 hclosed
    rw [Position.after_append] at hmore
    rw [List.append_assoc, List.dropLast_cons_of_ne_nil later.ne_nil, List.cons_append]
    exact .lexeme (hspells.before_lineFeed hlexeme ds) hspan (ih hmore hlexemes)

/-! ## Source texts -/

/-- Behind a text and a line feed, the place is the beginning of a text moved along.  The text may
begin with a mark that is passed over. -/
theorem Position.advance_after_mark {mark : List Char} (hmark : '\n' ∉ mark) (cs : List Char) :
    (Position.after ⟨byteWidth mark, 1, 1⟩ cs).advance '\n' =
      Position.start.shift (byteWidth (mark ++ cs) + 1) (1 + (mark ++ cs).count '\n') := by
  rw [advance_lineFeed, after_line, offset_after, byteWidth_append, List.count_append,
    List.count_eq_zero_of_not_mem hmark]
  simp only [shift, start, Position.mk.injEq, and_true]
  omega

theorem IsReading.append_lineFeed {a b : String} {lexemes more : List Lexeme}
    (h : IsReading a lexemes) (hmore : Layout .start b.toList more)
    (hclosed : ∀ lexeme ∈ lexemes, lexeme.role ≠ .fault .unterminatedComment) :
    IsReading (a ++ "\n" ++ b) (lexemes.dropLast ++
      more.map (Lexeme.shift (a.utf8ByteSize + 1) (1 + a.toList.count '\n'))) := by
  have htext : (a ++ "\n" ++ b).toList = a.toList ++ '\n' :: b.toList := by simp
  rw [IsReading, htext, ← byteWidth_toList]
  rcases h with ⟨hhead, hlayout⟩ | ⟨cs, hcs, hlayout⟩
  · have hplace := @Position.advance_after_mark [] (by simp) a.toList
    refine .inl ⟨?_, hlayout.append_lineFeed (hplace ▸ hmore.shift) hclosed⟩
    cases htoList : a.toList with
    | nil => simp
    | cons c cs => rwa [htoList] at hhead
  · have hplace := @Position.advance_after_mark ['\uFEFF'] (by simp) cs
    rw [hcs]
    exact .inr ⟨cs ++ '\n' :: b.toList, rfl,
      hlayout.append_lineFeed (hplace ▸ hmore.shift) hclosed⟩

theorem role_ne_of_lexicalErrors {source : String} {fault : LexicalFault}
    (h : ∀ e ∈ lexicalErrors source, e.fault ≠ fault) :
    ∀ lexeme ∈ Lexeme.ofString source, lexeme.role ≠ .fault fault := by
  intro lexeme hmem hrole
  cases lexeme with
  | token t => cases hrole
  | error e =>
    have he : e ∈ lexicalErrors source := List.mem_filterMap.2 ⟨.error e, hmem, rfl⟩
    exact h e he (Piece.Role.fault.inj hrole)

/-- Without a byte order mark, the reading of a text begins with the text. -/
theorem layout_ofString {source : String} (h : source.toList.head? ≠ some '\uFEFF') :
    Layout .start source.toList (Lexeme.ofString source) := by
  have hreading : IsReading source (Lexeme.ofString source) := isReading_iff.2 rfl
  rcases hreading with ⟨-, hlayout⟩ | ⟨rest, hrest, -⟩
  · exact hlayout
  · rw [hrest] at h
    exact absurd rfl h

/-- Reading goes line by line.  If no block comment is open at the end of a text, then what a cursor
answers with in that text, a line feed and another text is what it answers with in the first, up to
the end of input, and then what it answers with in the second, with all places moved along by the
bytes and the lines before them.  Columns stay as they are. -/
theorem lexemes_of_lines {a b : String}
    (ha : ∀ e ∈ lexicalErrors a, e.fault ≠ .unterminatedComment)
    (hb : b.toList.head? ≠ some '\uFEFF') :
    ∃ before eof after, eof.kind = .eof ∧
      (Cursor.ofString a).Yields (before ++ [.token eof]) ∧
      (Cursor.ofString b).Yields after ∧
      (Cursor.ofString (a ++ "\n" ++ b)).Yields
        (before ++ after.map (Lexeme.shift (a.utf8ByteSize + 1) (1 + a.toList.count '\n'))) := by
  have hreading : IsReading a (Lexeme.ofString a) := isReading_iff.2 rfl
  have hwhole := hreading.append_lineFeed (layout_ofString hb) (role_ne_of_lexicalErrors ha)
  obtain ⟨before, eof, hbefore, heof, -⟩ := hreading.coversSource
  rw [hbefore, List.dropLast_concat, isReading_iff] at hwhole
  refine ⟨before, eof, Lexeme.ofString b, heof, ?_, Cursor.yields_ofString b, ?_⟩
  · rw [← hbefore]
    exact Cursor.yields_ofString a
  · rw [hwhole]
    exact Cursor.yields_ofString _

/-- The first text has a byte order mark, a slash that stands alone, a line feed and a string that
breaks off behind a backslash. -/
theorem lexemes_of_lines_open_string :
    (∀ e ∈ lexicalErrors "\uFEFF/\n\"é\\", e.fault ≠ .unterminatedComment) ∧
    "y = @".toList.head? ≠ some '\uFEFF' ∧
    ∃ before eof after, eof.kind = .eof ∧
      (Cursor.ofString "\uFEFF/\n\"é\\").Yields (before ++ [.token eof]) ∧
      (Cursor.ofString "y = @").Yields after ∧
      (Cursor.ofString ("\uFEFF/\n\"é\\" ++ "\n" ++ "y = @")).Yields
        (before ++ after.map (Lexeme.shift 10 2)) := by
  have ha : ∀ e ∈ lexicalErrors "\uFEFF/\n\"é\\", e.fault ≠ .unterminatedComment := by
    decide +kernel
  have hb : "y = @".toList.head? ≠ some '\uFEFF' := by decide +kernel
  exact ⟨ha, hb, lexemes_of_lines ha hb⟩

end DeclLang
