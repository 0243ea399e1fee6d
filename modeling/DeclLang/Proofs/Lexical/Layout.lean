import DeclLang.Lexeme.Cursor
import DeclLang.Proofs.Lexical.FirstPiece

/-!
# The layout of a source text

A `Layout` lays a text out as a row of trivia and lexemes, each spelled as its role says and each
with the span that it covers, and one empty end of input behind the last.  Nothing is left over
between two of them, so that all text outside the lexemes is trivia.

## Main statements

* `layout_iff` and `isReading_iff`: a text has exactly one layout, the one that cutting it into
  pieces finds.
* `Cursor.Yields` says which lexemes a cursor answers with until it answers no more, and
  `Cursor.yields_ofString` that they are those of the text.
* `Layout.covers` and `Layout.pairwise` read the spans off a layout: every lexeme but the end of
  input covers a stretch of the text, and the stretches come in order without overlapping.
* `lexemes_lossless` puts these together for a whole source text.
-/

namespace DeclLang

/-! ## Widths in bytes -/

/-- The number of bytes that a text takes. -/
def byteWidth (cs : List Char) : Nat := (String.ofList cs).utf8ByteSize

@[simp]
theorem byteWidth_nil : byteWidth [] = 0 := rfl

theorem byteWidth_toList (text : String) : byteWidth text.toList = text.utf8ByteSize := by
  rw [byteWidth, String.ofList_toList]

theorem byteWidth_append (cs ds : List Char) :
    byteWidth (cs ++ ds) = byteWidth cs + byteWidth ds := by
  rw [byteWidth, String.ofList_append, String.utf8ByteSize_append]
  rfl

theorem byteWidth_cons (c : Char) (cs : List Char) :
    byteWidth (c :: cs) = c.utf8Size + byteWidth cs := by
  have hsingle : byteWidth [c] = c.utf8Size := by
    rw [byteWidth, ← String.singleton_eq_ofList, String.utf8ByteSize_singleton]
  rw [← List.singleton_append, byteWidth_append, hsingle]

theorem byteWidth_pos {cs : List Char} (h : cs ≠ []) : 0 < byteWidth cs := by
  cases cs with
  | nil => exact absurd rfl h
  | cons c cs =>
    have hc := c.utf8Size_pos
    rw [byteWidth_cons]
    omega

theorem eq_nil_of_byteWidth_eq_zero {cs : List Char} (h : byteWidth cs = 0) : cs = [] := by
  by_contra hne
  exact Nat.ne_of_gt (byteWidth_pos hne) h

/-- The end of the first part of a text is a place between two characters. -/
theorem isValid_of_toList {source : String} {before rest : List Char}
    (h : source.toList = before ++ rest) :
    String.Pos.Raw.IsValid source ⟨byteWidth before⟩ := by
  rw [String.Pos.Raw.isValid_iff_exists_append]
  refine ⟨String.ofList before, String.ofList rest, ?_, rfl⟩
  rw [← String.ofList_append, ← h, String.ofList_toList]

theorem Position.offset_after (p : Position) (cs : List Char) :
    (p.after cs).offset = p.offset + byteWidth cs := by
  induction cs generalizing p with
  | nil => rfl
  | cons c cs ih =>
    have hstep : (p.advance c).offset = p.offset + c.utf8Size := by
      unfold advance
      split <;> rfl
    rw [after_cons, ih, hstep, byteWidth_cons, Nat.add_assoc]

/-! ## Layouts -/

/-- The text that a lexeme covers. -/
def Lexeme.span : Lexeme → Span
  | token t => t.span
  | error e => e.span

/-- What the text of a lexeme is. -/
def Lexeme.role : Lexeme → Piece.Role
  | token t => .token t.kind
  | error e => .fault e.fault

/-- `Layout p cs lexemes`: the text `cs`, which begins at `p`, consists of the texts of the lexemes
in order with trivia around them, and the end of input is behind its last character. -/
inductive Layout : Position → List Char → List Lexeme → Prop where
  | done {p : Position} : Layout p [] [.token ⟨.eof, .between p p⟩]
  | trivia {p : Position} {text rest : List Char} {lexemes : List Lexeme}
      (hspells : Spells .trivia text rest) (more : Layout (p.after text) rest lexemes) :
      Layout p (text ++ rest) lexemes
  | lexeme {p : Position} {text rest : List Char} {lexeme : Lexeme} {lexemes : List Lexeme}
      (hspells : Spells lexeme.role text rest) (hspan : lexeme.span = .between p (p.after text))
      (more : Layout (p.after text) rest lexemes) : Layout p (text ++ rest) (lexeme :: lexemes)

/-- The lexemes of a source text: those of a layout that begins behind a byte order mark, if there
is one, and else with the text. -/
def IsReading (source : String) (lexemes : List Lexeme) : Prop :=
  (source.toList.head? ≠ some '\uFEFF' ∧ Layout .start source.toList lexemes) ∨
  ∃ rest, source.toList = '\uFEFF' :: rest ∧ Layout ⟨'\uFEFF'.utf8Size, 1, 1⟩ rest lexemes

namespace Spells

variable {role : Piece.Role} {text rest : List Char}

theorem text_ne_nil (h : Spells role text rest) : text ≠ [] := by
  cases h with
  | keyword => exact (isWord_spelling _).ne_nil
  | name hname => exact hname.1.ne_nil
  | number hdigits => exact hdigits.ne_nil
  | @mark m => cases m; simp [Punctuation.spelling]
  | _ => simp

/-- The end of input has no spelling. -/
theorem role_ne_eof (h : Spells role text rest) : role ≠ .token .eof := by
  rintro rfl
  cases h

/-- A text that is spelled as a role says is the first piece of any text that goes on with
`rest`. -/
theorem exists_next (h : Spells role text rest) :
    ∃ c cs, text ++ rest = c :: cs ∧ Piece.next c cs = (⟨role, text⟩, rest) := by
  obtain ⟨c, cs, hcs⟩ := List.exists_cons_of_ne_nil h.text_ne_nil
  have hcons : text ++ rest = c :: (cs ++ rest) := by rw [hcs, List.cons_append]
  exact ⟨c, cs ++ rest, hcons, h.next_eq hcons⟩

theorem pieces_append (h : Spells role text rest) :
    pieces (text ++ rest) = ⟨role, text⟩ :: pieces rest := by
  obtain ⟨c, cs, hcons, hnext⟩ := h.exists_next
  rw [hcons, pieces_cons, hnext]

end Spells

/-! ## A text has exactly one layout -/

theorem Lexeme.lexeme?_eq_some {lexeme : Lexeme} {text : List Char} {span : Span}
    (h : lexeme.span = span) : Piece.lexeme? ⟨lexeme.role, text⟩ span = some lexeme := by
  subst h
  cases lexeme <;> rfl

theorem Piece.role_eq_trivia {piece : Piece} {span : Span} (h : piece.lexeme? span = none) :
    piece.role = .trivia := by
  unfold lexeme? at h
  split at h
  · assumption
  · cases h
  · cases h

theorem Piece.lexeme_of_lexeme? {piece : Piece} {span : Span} {lexeme : Lexeme}
    (h : piece.lexeme? span = some lexeme) : lexeme.role = piece.role ∧ lexeme.span = span := by
  unfold lexeme? at h
  split at h
  · cases h
  · next kind hkind =>
    cases h
    exact ⟨hkind.symm, rfl⟩
  · next fault hfault =>
    cases h
    exact ⟨hfault.symm, rfl⟩

theorem layout_place (p : Position) (cs : List Char) :
    Layout p cs (Lexeme.place p (pieces cs)) := by
  induction cs using pieces.induct generalizing p with
  | case1 =>
    rw [pieces_nil]
    exact .done
  | case2 c cs split ih =>
    have happend := Piece.next_append c cs
    have hspells := Piece.spells_next c cs
    rw [pieces_cons, ← happend, Lexeme.place]
    cases hlexeme : split.1.lexeme? (.between p (p.after split.1.text)) with
    | none =>
      rw [Piece.role_eq_trivia hlexeme] at hspells
      exact .trivia hspells (ih _)
    | some lexeme =>
      obtain ⟨hrole, hspan⟩ := Piece.lexeme_of_lexeme? hlexeme
      rw [← hrole] at hspells
      exact .lexeme hspells hspan (ih _)

theorem Layout.eq_place {p : Position} {cs : List Char} {lexemes : List Lexeme}
    (h : Layout p cs lexemes) : lexemes = Lexeme.place p (pieces cs) := by
  induction h with
  | done => rw [pieces_nil]; rfl
  | trivia hspells _ ih =>
    rw [hspells.pieces_append, Lexeme.place, ← ih]
    rfl
  | lexeme hspells hspan _ ih =>
    rw [hspells.pieces_append, Lexeme.place, Lexeme.lexeme?_eq_some hspan, ← ih]
    rfl

/-- The one layout of a text is made of its pieces. -/
theorem layout_iff {p : Position} {cs : List Char} {lexemes : List Lexeme} :
    Layout p cs lexemes ↔ lexemes = Lexeme.place p (pieces cs) :=
  ⟨Layout.eq_place, fun h => h ▸ layout_place p cs⟩

theorem isReading_iff {source : String} {lexemes : List Lexeme} :
    IsReading source lexemes ↔ lexemes = Lexeme.ofString source := by
  unfold IsReading Lexeme.ofString
  by_cases hmark : source.toList.head? = some '\uFEFF'
  · obtain ⟨rest, hrest⟩ := List.head?_eq_some_iff.1 hmark
    simp [hrest, Lexeme.splitByteOrderMark, layout_iff]
  · have hsplit : Lexeme.splitByteOrderMark source.toList = (.start, source.toList) := by
      unfold Lexeme.splitByteOrderMark
      split
      · next heq => simp [heq] at hmark
      · rfl
    have hnone : ∀ rest, source.toList ≠ '\uFEFF' :: rest := by
      rintro rest heq
      simp [heq] at hmark
    simp [hsplit, hmark, hnone, layout_iff]

/-! ## The spans of a layout -/

/-- The lexeme covers a stretch of the text `cs`, which begins at `p`, and is spelled there as its
role says. -/
def Lexeme.Covers (p : Position) (cs : List Char) (lexeme : Lexeme) : Prop :=
  ∃ before text rest, cs = before ++ text ++ rest ∧ Spells lexeme.role text rest ∧
    lexeme.span = .between (p.after before) (p.after (before ++ text))

theorem Lexeme.Covers.append {p : Position} {text rest : List Char} {lexeme : Lexeme}
    (h : Covers (p.after text) rest lexeme) : Covers p (text ++ rest) lexeme := by
  obtain ⟨before, covered, behind, rfl, hspells, hspan⟩ := h
  refine ⟨text ++ before, covered, behind, by simp, hspells, ?_⟩
  simp only [hspan, List.append_assoc, Position.after_append]

namespace Layout

variable {p : Position} {cs : List Char} {lexemes : List Lexeme}

/-- A layout ends with the end of input behind the text, and each lexeme before it covers a
stretch of the text. -/
theorem covers (h : Layout p cs lexemes) :
    ∃ init, lexemes = init ++ [.token ⟨.eof, .between (p.after cs) (p.after cs)⟩] ∧
      ∀ lexeme ∈ init, lexeme.Covers p cs := by
  induction h with
  | done => exact ⟨[], rfl, by simp⟩
  | trivia _ _ ih =>
    obtain ⟨init, rfl, hinit⟩ := ih
    refine ⟨init, by rw [Position.after_append], ?_⟩
    intro lexeme hmem
    exact (hinit lexeme hmem).append
  | @lexeme p text rest lexeme _ hspells hspan _ ih =>
    obtain ⟨init, rfl, hinit⟩ := ih
    refine ⟨lexeme :: init, by rw [Position.after_append, List.cons_append], ?_⟩
    rw [List.forall_mem_cons]
    refine ⟨⟨[], text, rest, rfl, hspells, hspan⟩, ?_⟩
    intro later hmem
    exact (hinit later hmem).append

/-- The lexemes of a layout lie behind its beginning, in order and without overlapping. -/
theorem pairwise (h : Layout p cs lexemes) :
    (∀ lexeme ∈ lexemes, p.offset ≤ lexeme.span.start) ∧
      lexemes.Pairwise fun a b => a.span.stop ≤ b.span.start := by
  induction h with
  | done => simp [Lexeme.span, Span.between]
  | @trivia p text rest lexemes _ _ ih =>
    obtain ⟨hstart, hpairwise⟩ := ih
    rw [Position.offset_after] at hstart
    refine ⟨?_, hpairwise⟩
    intro lexeme hmem
    have := hstart lexeme hmem
    omega
  | @lexeme p text rest lexeme lexemes _ hspan _ ih =>
    obtain ⟨hstart, hpairwise⟩ := ih
    have hstop : lexeme.span.stop = (p.after text).offset := by rw [hspan]; rfl
    have hfirst : lexeme.span.start = p.offset := by rw [hspan]; rfl
    rw [← hstop] at hstart
    rw [List.pairwise_cons, List.forall_mem_cons]
    refine ⟨⟨Nat.le_of_eq hfirst.symm, ?_⟩, hstart, hpairwise⟩
    intro later hmem
    have hlater := hstart later hmem
    have hwidth := p.offset_after text
    omega

theorem ne_nil (h : Layout p cs lexemes) : lexemes ≠ [] := by
  obtain ⟨init, rfl, -⟩ := h.covers
  simp

end Layout

/-! ## Reading one lexeme at a time -/

/-- `cursor.Yields lexemes`: the cursor answers with these lexemes in turn, and then no more. -/
inductive Cursor.Yields : Cursor → List Lexeme → Prop where
  | done {cursor : Cursor} (h : cursor.next?.1 = none) : Yields cursor []
  | more {cursor : Cursor} {lexeme : Lexeme} {lexemes : List Lexeme}
      (h : cursor.next?.1 = some lexeme) (later : Yields cursor.next?.2 lexemes) :
      Yields cursor (lexeme :: lexemes)

namespace Cursor

theorem yields_finished (cs : List Char) (p : Position) : Yields ⟨cs, p, true⟩ [] := .done rfl

/-- A cursor gives the same answers whenever it is asked. -/
theorem Yields.unique {cursor : Cursor} {lexemes others : List Lexeme}
    (h : cursor.Yields lexemes) (hothers : cursor.Yields others) : others = lexemes := by
  induction h generalizing others with
  | done h =>
    cases hothers with
    | done => rfl
    | more h' => rw [h] at h'; cases h'
  | more h _ ih =>
    cases hothers with
    | done h' => rw [h] at h'; cases h'
    | more h' later =>
      rw [h] at h'
      cases h'
      rw [ih later]

theorem isEnd_of_spells {lexeme : Lexeme} {text rest : List Char}
    (h : Spells lexeme.role text rest) : isEnd lexeme = false := by
  cases lexeme with
  | error e => rfl
  | token t =>
    have hkind : t.kind ≠ .eof := by
      intro heof
      exact h.role_ne_eof (congrArg Piece.Role.token heof)
    simp [isEnd, hkind]

/-- Reading from a text goes over the trivia at its front: it comes upon the first lexeme of the
layout and leaves the layout of what is behind, or it comes upon the end of input, which is where
the text ends. -/
theorem readFrom_eq_of_layout {p : Position} {cs : List Char} {lexeme : Lexeme}
    {lexemes : List Lexeme} (h : Layout p cs (lexeme :: lexemes)) :
    (∃ q rest, readFrom p cs = (lexeme, q, rest) ∧ isEnd lexeme = false ∧ Layout q rest lexemes) ∨
    (lexemes = [] ∧ ∃ q, lexeme = .token ⟨.eof, .between q q⟩ ∧
      readFrom p cs = (lexeme, q, [])) := by
  generalize hall : lexeme :: lexemes = all at h
  induction h with
  | @done p =>
    cases hall
    exact .inr ⟨rfl, p, rfl, by rw [readFrom]⟩
  | @trivia p text rest all hspells more ih =>
    obtain ⟨c, cs, hcons, hnext⟩ := hspells.exists_next
    have hread : readFrom p (text ++ rest) = readFrom (p.after text) rest := by
      rw [hcons, readFrom, hnext]
      rfl
    rw [hread]
    exact ih hall
  | @lexeme p text rest first later hspells hspan more ih =>
    cases hall
    obtain ⟨c, cs, hcons, hnext⟩ := hspells.exists_next
    have hread : readFrom p (text ++ rest) = (lexeme, p.after text, rest) := by
      rw [hcons, readFrom, hnext]
      simp only [Lexeme.lexeme?_eq_some hspan]
    exact .inl ⟨_, _, hread, isEnd_of_spells hspells, more⟩

theorem yields_of_layout {p : Position} {cs : List Char} {lexemes : List Lexeme}
    (h : Layout p cs lexemes) : Yields ⟨cs, p, false⟩ lexemes := by
  induction lexemes generalizing p cs with
  | nil => exact absurd rfl h.ne_nil
  | cons lexeme lexemes ih =>
    rcases readFrom_eq_of_layout h with ⟨q, rest, hread, hend, more⟩ | ⟨rfl, q, rfl, hread⟩
    · have hnext : next? ⟨cs, p, false⟩ = (some lexeme, ⟨rest, q, false⟩) := by
        simp [next?, read, hread, hend]
      refine .more (by rw [hnext]) ?_
      rw [hnext]
      exact ih more
    · have hnext : next? ⟨cs, p, false⟩ =
          (some (.token ⟨.eof, .between q q⟩), ⟨[], q, true⟩) := by
        simp [next?, read, hread, isEnd]
      refine .more (by rw [hnext]) ?_
      rw [hnext]
      exact yields_finished _ _

/-- A cursor at the beginning of a source text gives the lexemes of the text. -/
theorem yields_ofString (source : String) :
    (ofString source).Yields (Lexeme.ofString source) :=
  yields_of_layout (layout_place _ _)

end Cursor

/-! ## Source texts -/

/-- The stretch of a source text that a lexeme covers, in bytes: it is not empty, begins and ends
between two characters, and is spelled as the role of the lexeme says. -/
def Lexeme.CoversSource (source : String) (lexeme : Lexeme) : Prop :=
  ∃ before text rest, source.toList = before ++ text ++ rest ∧ text ≠ [] ∧
    lexeme.span.start = byteWidth before ∧ lexeme.span.stop = byteWidth (before ++ text) ∧
    Spells lexeme.role text rest

/-- A byte order mark is wide, but it does not count as a column. -/
theorem IsReading.exists_layout {source : String} {lexemes : List Lexeme}
    (h : IsReading source lexemes) :
    ∃ mark p cs, source.toList = mark ++ cs ∧ Position.offset p = byteWidth mark ∧
      Layout p cs lexemes := by
  rcases h with ⟨-, hlayout⟩ | ⟨rest, hrest, hlayout⟩
  · exact ⟨[], .start, _, rfl, rfl, hlayout⟩
  · exact ⟨['\uFEFF'], _, rest, hrest, rfl, hlayout⟩

theorem IsReading.coversSource {source : String} {lexemes : List Lexeme}
    (h : IsReading source lexemes) :
    ∃ init eof, lexemes = init ++ [.token eof] ∧ eof.kind = .eof ∧
      eof.span.start = source.utf8ByteSize ∧ eof.span.stop = source.utf8ByteSize ∧
      ∀ lexeme ∈ init, lexeme.CoversSource source := by
  obtain ⟨mark, p, cs, hsource, hoffset, hlayout⟩ := h.exists_layout
  obtain ⟨init, rfl, hinit⟩ := hlayout.covers
  have hend : (p.after cs).offset = source.utf8ByteSize := by
    rw [Position.offset_after, hoffset, ← byteWidth_append, ← hsource, byteWidth,
      String.ofList_toList]
  refine ⟨init, _, rfl, rfl, hend, hend, ?_⟩
  intro lexeme hmem
  obtain ⟨before, text, rest, rfl, hspells, hspan⟩ := hinit lexeme hmem
  refine ⟨mark ++ before, text, rest, by simp [hsource], hspells.text_ne_nil, ?_, ?_, hspells⟩
  · rw [hspan, byteWidth_append, ← hoffset, ← Position.offset_after]
    rfl
  · rw [hspan, List.append_assoc, byteWidth_append, ← hoffset, ← Position.offset_after]
    rfl

theorem Lexeme.CoversSource.start_lt_stop {source : String} {lexeme : Lexeme}
    (h : lexeme.CoversSource source) :
    lexeme.span.start < lexeme.span.stop ∧ lexeme.span.stop ≤ source.utf8ByteSize := by
  obtain ⟨before, text, rest, hsource, hne, hstart, hstop, -⟩ := h
  have hpos := byteWidth_pos hne
  have hsize : source.utf8ByteSize = byteWidth (before ++ text) + byteWidth rest := by
    rw [← byteWidth_append, ← hsource, byteWidth_toList]
  rw [byteWidth_append] at hstop hsize
  omega

theorem Lexeme.spells_of_mem_ofString {source : String} {lexeme : Lexeme}
    (h : lexeme ∈ ofString source) (hrole : lexeme.role ≠ .token .eof) :
    ∃ text rest, Spells lexeme.role text rest := by
  have hreading : IsReading source (ofString source) := isReading_iff.2 rfl
  obtain ⟨init, eof, hlexemes, hkind, -, -, hinit⟩ := hreading.coversSource
  rw [hlexemes, List.mem_append, List.mem_singleton] at h
  rcases h with hmem | rfl
  · obtain ⟨_, text, rest, -, -, -, -, hspells⟩ := hinit lexeme hmem
    exact ⟨text, rest, hspells⟩
  · exact absurd (congrArg Piece.Role.token hkind) hrole

/-- Reading a source text loses nothing.  A cursor answers with the lexemes of the one reading of
the text; they end with one end of input, empty and behind the last byte; each other lexeme covers
a stretch of the text that is spelled as its role says; and the stretches come in order. -/
theorem lexemes_lossless (source : String) :
    (Cursor.ofString source).Yields (Lexeme.ofString source) ∧
    (∀ lexemes, IsReading source lexemes ↔ lexemes = Lexeme.ofString source) ∧
    (∃ init eof, Lexeme.ofString source = init ++ [.token eof] ∧ eof.kind = .eof ∧
      eof.span.start = source.utf8ByteSize ∧ eof.span.stop = source.utf8ByteSize ∧
      ∀ lexeme ∈ init, Cursor.isEnd lexeme = false ∧ lexeme.span.start < lexeme.span.stop ∧
        lexeme.span.stop ≤ source.utf8ByteSize ∧ lexeme.CoversSource source) ∧
    (Lexeme.ofString source).Pairwise fun a b => a.span.stop ≤ b.span.start := by
  have hreading : IsReading source (Lexeme.ofString source) := isReading_iff.2 rfl
  obtain ⟨init, eof, hlexemes, hkind, hstart, hstop, hinit⟩ := hreading.coversSource
  obtain ⟨mark, p, cs, -, -, hlayout⟩ := hreading.exists_layout
  refine ⟨Cursor.yields_ofString source, fun _ => isReading_iff,
    ⟨init, eof, hlexemes, hkind, hstart, hstop, ?_⟩, hlayout.pairwise.2⟩
  intro lexeme hmem
  have hcovers := hinit lexeme hmem
  obtain ⟨hlt, hle⟩ := hcovers.start_lt_stop
  obtain ⟨_, _, _, _, _, _, _, hspells⟩ := hinit lexeme hmem
  exact ⟨Cursor.isEnd_of_spells hspells, hlt, hle, hcovers⟩

end DeclLang
