import DeclLang.Proofs.Lexical.Layout
import Mathlib.Data.List.DropRight

/-!
# Lines and columns

A position is carried along the text, one character at a time.  Here the line and the column of a
place are counted afresh, from all of the text before it: `lineAt` counts the line feeds, and
`columnAt` the characters behind the last of them.

`Position.after_line` and `Position.after_column` say what moving over a text does to the two
counters, and `isPlaced_of_reading` that every lexeme of a source text, however much of the text
before it is trivia or in error, has the line and the column that counting afresh gives.
-/

namespace DeclLang

/-! ## The text before a place -/

/-- The characters of a text that lie within its first `n` bytes. -/
def charsWithin : Nat → List Char → List Char
  | _, [] => []
  | n, c :: cs => if c.utf8Size ≤ n then c :: charsWithin (n - c.utf8Size) cs else []

/-- What lies within the bytes of the first part of a text is that part. -/
theorem charsWithin_byteWidth (before rest : List Char) :
    charsWithin (byteWidth before) (before ++ rest) = before := by
  induction before with
  | nil =>
    cases rest with
    | nil => rfl
    | cons c rest =>
      have hpos := c.utf8Size_pos
      have hwide : ¬ c.utf8Size ≤ byteWidth [] := by
        rw [byteWidth_nil]
        omega
      rw [List.nil_append, charsWithin, if_neg hwide]
  | cons c before ih =>
    have hwidth : byteWidth (c :: before) - c.utf8Size = byteWidth before := by
      rw [byteWidth_cons, Nat.add_sub_cancel_left]
    have hfits : c.utf8Size ≤ byteWidth (c :: before) := by
      rw [byteWidth_cons]
      exact Nat.le_add_right _ _
    rw [List.cons_append, charsWithin, if_pos hfits, hwidth, ih]

/-- A text without the byte order mark that it begins with, if it does. -/
def withoutMark : List Char → List Char
  | '\uFEFF' :: cs => cs
  | cs => cs

theorem withoutMark_of_head {cs : List Char} (h : cs.head? ≠ some '\uFEFF') :
    withoutMark cs = cs := by
  unfold withoutMark
  split
  · exact absurd rfl h
  · rfl

/-- The mark ends no line. -/
theorem count_withoutMark (cs : List Char) : (withoutMark cs).count '\n' = cs.count '\n' := by
  unfold withoutMark
  split
  · next rest => rw [List.count_cons_of_ne (by decide)]
  · rfl

theorem length_withoutMark_le (cs : List Char) : (withoutMark cs).length ≤ cs.length := by
  unfold withoutMark
  split
  · exact Nat.le_succ _
  · exact Nat.le_refl _

/-! ## Counting afresh -/

/-- The line of the place behind the first `offset` bytes of a source text: one more than the number
of line feeds among them. -/
def lineAt (source : String) (offset : Nat) : Nat :=
  1 + (charsWithin offset source.toList).count '\n'

/-- The column of the place behind the first `offset` bytes of a source text: one more than the
number of characters among them that are behind the last line feed.  A byte order mark at the
beginning of the text is not counted. -/
def columnAt (source : String) (offset : Nat) : Nat :=
  1 + ((withoutMark (charsWithin offset source.toList)).rtakeWhile (· != '\n')).length

theorem length_charsWithin_le (n : Nat) (cs : List Char) : (charsWithin n cs).length ≤ n := by
  induction cs generalizing n with
  | nil => exact Nat.zero_le n
  | cons c cs ih =>
    have hpos := c.utf8Size_pos
    rw [charsWithin]
    split
    · have hle := ih (n - c.utf8Size)
      rw [List.length_cons]
      omega
    · exact Nat.zero_le n

/-- Of the places behind so many bytes, none has a column beyond their number. -/
theorem columnAt_le (source : String) (offset : Nat) : columnAt source offset ≤ 1 + offset := by
  have hline := (List.rtakeWhile_suffix (· != '\n')
    (withoutMark (charsWithin offset source.toList))).length_le
  have hwithin := length_charsWithin_le offset source.toList
  have hmarked := length_withoutMark_le (charsWithin offset source.toList)
  rw [columnAt]
  omega

/-- The line and the column of the span are those of the place where it starts. -/
def Span.IsPlaced (source : String) (s : Span) : Prop :=
  s.line = lineAt source s.start ∧ s.column = columnAt source s.start

/-- The place of a merged span is that of one of the two. -/
theorem Span.IsPlaced.merge {source : String} {s t : Span} (hs : s.IsPlaced source)
    (ht : t.IsPlaced source) : (s.merge t).IsPlaced source := by
  by_cases hfirst : s.start ≤ t.start
  · simpa only [IsPlaced, Span.merge, if_pos hfirst] using hs
  · simpa only [IsPlaced, Span.merge, if_neg hfirst] using ht

/-! ## Carrying the counters along -/

namespace Position

theorem advance_lineFeed (p : Position) : p.advance '\n' = ⟨p.offset + 1, p.line + 1, 1⟩ := rfl

theorem advance_of_ne {c : Char} (h : c ≠ '\n') (p : Position) :
    p.advance c = ⟨p.offset + c.utf8Size, p.line, p.column + 1⟩ := if_neg h

theorem after_line (p : Position) (cs : List Char) :
    (p.after cs).line = p.line + cs.count '\n' := by
  induction cs generalizing p with
  | nil => rfl
  | cons c cs ih =>
    rw [after_cons, ih]
    by_cases hc : c = '\n'
    · subst hc
      rw [advance_lineFeed, List.count_cons_self]
      exact Nat.add_right_comm p.line 1 _
    · rw [advance_of_ne hc, List.count_cons_of_ne hc]

/-- From the beginning of a line, the column counts the characters behind the last line feed. -/
theorem after_column {p : Position} (hp : p.column = 1) (cs : List Char) :
    (p.after cs).column = 1 + (cs.rtakeWhile (· != '\n')).length := by
  induction cs using List.reverseRecOn with
  | nil => rw [List.rtakeWhile_nil, after_nil, hp, List.length_nil]
  | append_singleton cs c ih =>
    rw [after_append, after_cons, after_nil]
    by_cases hc : c = '\n'
    · subst hc
      rw [List.rtakeWhile_concat_neg (· != '\n') _ _ (by decide), advance_lineFeed]
      rfl
    · rw [List.rtakeWhile_concat_pos (· != '\n') _ _ (by simpa using hc), advance_of_ne hc,
        List.length_append, List.length_singleton, ← Nat.add_assoc, ← ih]

/-- On one line, moving over a text is moving over its bytes and its characters. -/
theorem after_of_notMem {cs : List Char} (h : '\n' ∉ cs) (p : Position) :
    p.after cs = ⟨p.offset + byteWidth cs, p.line, p.column + cs.length⟩ := by
  induction cs generalizing p with
  | nil => rfl
  | cons c cs ih =>
    rw [List.mem_cons, not_or] at h
    rw [after_cons, ih h.2, advance_of_ne (Ne.symm h.1), byteWidth_cons, List.length_cons,
      Nat.add_assoc, Nat.add_assoc, Nat.add_comm 1]

end Position

/-! ## The lexemes of a source text -/

/-- A reading begins behind a mark, which is a byte order mark or nothing, and what `withoutMark`
leaves of any first part of the text is what has been read of it. -/
theorem IsReading.exists_mark {source : String} {lexemes : List Lexeme}
    (h : IsReading source lexemes) :
    ∃ mark cs, source.toList = mark ++ cs ∧
      (∀ before, before <+: cs → withoutMark (mark ++ before) = before) ∧
      Layout ⟨byteWidth mark, 1, 1⟩ cs lexemes := by
  rcases h with ⟨hmark, hlayout⟩ | ⟨rest, hrest, hlayout⟩
  · refine ⟨[], source.toList, rfl, ?_, hlayout⟩
    rintro before ⟨rest, hsplit⟩
    refine withoutMark_of_head ?_
    intro hhead
    rw [← hsplit, List.head?_append, ← List.nil_append before, hhead] at hmark
    exact hmark rfl
  · exact ⟨['\uFEFF'], rest, hrest, fun _ _ => rfl, hlayout⟩

/-- Counting afresh gives the counters that were carried along. -/
theorem isPlaced_between {source : String} {mark before rest : List Char} (q : Position)
    (hsource : source.toList = mark ++ (before ++ rest))
    (hmark : withoutMark (mark ++ before) = before) :
    (Span.between (Position.after ⟨byteWidth mark, 1, 1⟩ before) q).IsPlaced source := by
  have hoffset : (Position.after ⟨byteWidth mark, 1, 1⟩ before).offset =
      byteWidth (mark ++ before) := by
    rw [Position.offset_after, byteWidth_append]
  have hwithin : charsWithin (byteWidth (mark ++ before)) source.toList = mark ++ before := by
    rw [hsource, ← List.append_assoc, charsWithin_byteWidth]
  have hcount : (mark ++ before).count '\n' = before.count '\n' := by
    rw [← count_withoutMark, hmark]
  constructor
  · rw [lineAt, Span.between, hoffset, hwithin, hcount, Position.after_line]
  · rw [columnAt, Span.between, hoffset, hwithin, hmark, Position.after_column rfl]

/-- Every lexeme of a source text has the line and the column of the place where it starts. -/
theorem isPlaced_of_mem_ofString {source : String} {lexeme : Lexeme}
    (h : lexeme ∈ Lexeme.ofString source) : lexeme.span.IsPlaced source := by
  have hreading : IsReading source (Lexeme.ofString source) := isReading_iff.2 rfl
  obtain ⟨mark, cs, hsource, hmark, hlayout⟩ := hreading.exists_mark
  obtain ⟨init, hlexemes, hinit⟩ := hlayout.covers
  rw [hlexemes, List.mem_append, List.mem_singleton] at h
  rcases h with hmem | rfl
  · obtain ⟨before, text, rest, rfl, -, hspan⟩ := hinit lexeme hmem
    rw [hspan]
    refine isPlaced_between _ (by rw [hsource, List.append_assoc]) (hmark before ?_)
    exact ⟨text ++ rest, (List.append_assoc ..).symm⟩
  · exact isPlaced_between _ (by rw [hsource, List.append_nil]) (hmark cs List.prefix_rfl)

end DeclLang
