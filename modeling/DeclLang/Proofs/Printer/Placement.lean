import DeclLang.Proofs.Grammar.Extract
import DeclLang.Proofs.Printer.Quoting
import DeclLang.Proofs.Printer.RoundTrip
import DeclLang.Proofs.Text.Lines

/-!
# Where the parts of canonical source text stand

Canonical source text has a line for each import and each declaration, and its tree, read back,
tells on which.  The spans of that tree are known before anything is read: a line that begins at a
place `p` is laid out as tokens that derive its import or its declaration with a span that depends on
`p` alone (`IsWritten`), the next line begins behind its line feed, and so on down the text
(`exists_tokens_of_lines`).  `parse_canonical_eq` is the tree that comes of it.

No value can break a line, since quoting leaves no line feed in it.  So the lines of the text are the
lines that were written, and `canonical_lines_placed` gives each span by the number of its line.
-/

namespace DeclLang

/-! ## Layouts of trees -/

theorem DerivesImport.kind_ne_eof {tokens : List Token} {path : Spanned String}
    (h : DerivesImport tokens path) : ∀ t ∈ tokens, t.kind ≠ .eof := by
  cases h
  simp

theorem DerivesRow.kind_ne_eof {α : Type} {R : List Token → Spanned α → Prop}
    {tokens : List Token} {as : List (Spanned α)} (h : DerivesRow R tokens as)
    (hR : ∀ part a, R part a → ∀ t ∈ part, t.kind ≠ .eof) : ∀ t ∈ tokens, t.kind ≠ .eof := by
  induction h with
  | nil => nofun
  | cons hfirst _ ih => exact List.forall_mem_append.2 ⟨hR _ _ hfirst, ih⟩

/-- A text that is laid out as the tokens of a tree makes that tree. -/
theorem Derives.parse_of_layout {source : String} {tokens : List Token} {file : SourceFile}
    {eof : Token} (h : Derives tokens file) (heof : eof.kind = .eof)
    (hlayout : Layout .start source.toList (tokens.map .token ++ [.token eof])) :
    parse source = .ok file := by
  have hlexemes : Lexeme.ofString source = (tokens ++ [eof]).map .token := by
    have hall : Layout .start source.toList ((tokens ++ [eof]).map .token) := by
      rwa [List.map_append]
    rw [eq_comm, ← isReading_iff]
    exact .inl ⟨hall.head?_ne_byteOrderMark, hall⟩
  have hkinds : ∀ t ∈ tokens, t.kind ≠ .eof := by
    obtain ⟨imports, declarations, rfl, himports, hdeclarations⟩ := h
    rw [List.forall_mem_append]
    exact ⟨himports.kind_ne_eof fun _ _ => DerivesImport.kind_ne_eof,
      hdeclarations.kind_ne_eof fun _ _ => DerivesDeclaration.kind_ne_eof⟩
  have hbefore : beforeEof (tokens ++ [eof]) = tokens := by
    rw [beforeEof_append hkinds]
    simp [beforeEof, heof]
  rwa [parse_eq_parseTokens hlexemes, parseTokens_eq_ok_iff, hbefore]

/-- A token on a line that begins at `p`, with the text `before` before it on the line and a blank
character behind it. -/
theorem Layout.word {p : Position} {kind : Token.Kind} {before text rest : List Char} {c : Char}
    {lexemes : List Lexeme} (h : Spells (.token kind) text (c :: rest))
    (hc : c ∈ [' ', '\t', '\r', '\n'])
    (more : Layout (p.after (before ++ (text ++ [c]))) rest lexemes) :
    Layout (p.after before) (text ++ c :: rest)
      (.token ⟨kind, .between (p.after before) (p.after (before ++ text))⟩ :: lexemes) := by
  rw [← List.append_assoc, Position.after_append] at more
  refine .lexeme h ?_ (@Layout.trivia _ [c] _ _ (.blank hc) ?_)
  · rw [Position.after_append]
    rfl
  · rwa [← Position.after_append p before text]

/-- Merging a span with one that begins no earlier and ends no earlier. -/
theorem Span.merge_between {p : Position} {first before all : List Char}
    (h : byteWidth first ≤ byteWidth all) :
    (between p (p.after first)).merge (between (p.after before) (p.after all)) =
      between p (p.after all) := by
  have hstart : (between p (p.after first)).start ≤
      (between (p.after before) (p.after all)).start := by
    show p.offset ≤ (p.after before).offset
    rw [Position.offset_after]
    omega
  have hstop : max (p.after first).offset (p.after all).offset = (p.after all).offset := by
    rw [Position.offset_after, Position.offset_after]
    omega
  simp only [merge, if_pos hstart]
  simp only [between, hstop]

namespace Canonical

/-! ## One line -/

section Line

variable {α : Type}

/-- Wherever the line of `a` begins, and whatever follows it, it is laid out as tokens from which `a`
is derived, with the given span. -/
def IsWritten (R : List Token → Spanned α → Prop) (line : α → String) (span : Position → α → Span)
    (a : α) : Prop :=
  ∀ p : Position, ∃ tokens, R tokens ⟨a, span p a⟩ ∧ ∀ rest lexemes,
    Layout (p.after ((line a).toList ++ ['\n'])) rest lexemes →
      Layout p ((line a).toList ++ '\n' :: rest) (tokens.map .token ++ lexemes)

variable (q : QuoteStyle)

/-- What is before the path on the line of an import. -/
def beforePath : List Char := Keyword.import.spelling.toList ++ [' ']

/-- What is before the name on the line of a declaration. -/
def beforeName (d : Declaration) : List Char := d.kind.keyword.spelling.toList ++ [' ']

/-- What is before the mark on the line of a declaration. -/
def beforeMark (d : Declaration) : List Char := beforeName d ++ (d.name.toList ++ [' '])

/-- What is before the literal on the line of a declaration. -/
def beforeLiteral (d : Declaration) : List Char :=
  beforeMark d ++ (Punctuation.eq.spelling.toList ++ [' '])

theorem importLine_eq (path : String) :
    (importLine q path).toList = beforePath ++ (Quoted.encode q path).toList := by
  simp [importLine, beforePath]

theorem declarationLine_eq (d : Declaration) :
    (declarationLine q d).toList = beforeLiteral d ++ (literal q d.value).toList := by
  simp [declarationLine, beforeLiteral, beforeMark, beforeName]

/-- The span of the import on a line that begins at `p`: from its path to the end of the line. -/
def importSpan (p : Position) (path : String) : Span :=
  .between (p.after beforePath) (p.after (importLine q path).toList)

/-- The span of the declaration on a line that begins at `p`: all of the line. -/
def declarationSpan (p : Position) (d : Declaration) : Span :=
  .between p (p.after (declarationLine q d).toList)

theorem isWritten_import (path : String) :
    IsWritten DerivesImport (importLine q) (importSpan q) path := by
  intro p
  refine ⟨_, @DerivesImport.intro (.between p (p.after Keyword.import.spelling.toList)) _ path, ?_⟩
  intro rest lexemes hmore
  rw [importLine_eq, List.append_assoc] at hmore
  have hpath := Layout.word (spells_encode q path ('\n' :: rest)) (by simp) hmore
  rw [toList_importLine, importSpan, importLine_eq]
  exact @Layout.word p _ [] _ _ _ _ (.keyword (endsRun_space _)) (by simp) hpath

theorem isWritten_declaration {d : Declaration} (h : d.IsReadable) :
    IsWritten DerivesDeclaration (declarationLine q) (declarationSpan q) d := by
  intro p
  have hspan : (Span.between p (p.after d.kind.keyword.spelling.toList)).merge
      (.between (p.after (beforeLiteral d)) (p.after (declarationLine q d).toList)) =
        declarationSpan q p d := by
    refine Span.merge_between ?_
    rw [declarationLine_eq, beforeLiteral, beforeMark, beforeName]
    simp only [byteWidth_append]
    omega
  rw [← hspan]
  refine ⟨_, @DerivesDeclaration.intro _ _ _ _ _
    (.between (p.after (beforeName d)) (p.after (beforeName d ++ d.name.toList)))
    (.between (p.after (beforeMark d)) (p.after (beforeMark d ++ Punctuation.eq.spelling.toList)))
    _ (derivesLiteral_literalKind h.2), ?_⟩
  intro rest lexemes hmore
  rw [declarationLine_eq, List.append_assoc] at hmore
  have hliteral := Layout.word (@spells_literal q _ _ h.2 (endsRun_lineFeed rest)) (by simp) hmore
  have hmark := Layout.word Spells.mark (by simp) hliteral
  have hname := Layout.word (.name h.1 (endsRun_space _)) (by simp) hmark
  rw [toList_declarationLine, declarationLine_eq]
  exact @Layout.word p _ [] _ _ _ _ (.keyword (endsRun_space _)) (by simp) hname

end Line

/-! ## Lines below each other -/

section Rows

variable {α : Type} {line : α → String} {span : Position → α → Span}

/-- The parts whose lines stand below each other, the first of them at `p`. -/
def placed (line : α → String) (span : Position → α → Span) : Position → List α → List (Spanned α)
  | _, [] => []
  | p, a :: as => ⟨a, span p a⟩ :: placed line span (p.after ((line a).toList ++ ['\n'])) as

theorem map_node_placed (p : Position) (as : List α) :
    (placed line span p as).map Spanned.node = as := by
  induction as generalizing p with
  | nil => rfl
  | cons a as ih => rw [placed, List.map_cons, ih]

/-- A part begins behind the lines of the parts before it. -/
theorem getElem?_placed (p : Position) (as : List α) (i : Nat) :
    (placed line span p as)[i]? =
      as[i]?.map fun a => ⟨a, span (p.after (Lines.join ((as.take i).map line)).toList) a⟩ := by
  induction as generalizing p i with
  | nil => rfl
  | cons a as ih =>
    cases i with
    | zero => simp [placed]
    | succ i =>
      rw [placed, List.getElem?_cons_succ, List.getElem?_cons_succ, ih, List.take_succ_cons,
        List.map_cons, Lines.toList_join_cons, ← Position.after_append, List.append_assoc]
      rfl

theorem exists_tokens_of_lines {R : List Token → Spanned α → Prop} {as : List α}
    (h : ∀ a ∈ as, IsWritten R line span a) (p : Position) :
    ∃ tokens, DerivesRow R tokens (placed line span p as) ∧ ∀ rest lexemes,
      Layout (p.after (Lines.join (as.map line)).toList) rest lexemes →
        Layout p ((Lines.join (as.map line)).toList ++ rest) (tokens.map .token ++ lexemes) := by
  induction as generalizing p with
  | nil => exact ⟨[], .nil, fun rest lexemes hmore => by simpa using hmore⟩
  | cons a as ih =>
    obtain ⟨hfirst, hlater⟩ := List.forall_mem_cons.1 h
    obtain ⟨tokens, hderives, hline⟩ := hfirst p
    obtain ⟨more, hrow, hlines⟩ := ih hlater (p.after ((line a).toList ++ ['\n']))
    refine ⟨tokens ++ more, .cons hderives hrow, ?_⟩
    intro rest lexemes hmore
    rw [List.map_cons, Lines.toList_join_cons] at hmore ⊢
    rw [List.map_append, List.append_assoc, List.append_assoc, List.cons_append]
    refine hline _ _ (hlines rest lexemes ?_)
    rwa [← Position.after_append, List.append_assoc, List.singleton_append]

end Rows

/-! ## Whole texts -/

/-- The lines before the declarations. -/
def linesAbove (style : Style) (file : SourceFile) : List String :=
  file.importPaths.map (importLine style.quoteStyle) ++ separator style file

/-- The tree that canonical source text makes, with its spans. -/
def placedFile (style : Style) (file : SourceFile) : SourceFile where
  imports := placed (importLine style.quoteStyle) (importSpan style.quoteStyle) .start
    file.importPaths
  declarations := placed (declarationLine style.quoteStyle) (declarationSpan style.quoteStyle)
    (Position.start.after (Lines.join (linesAbove style file)).toList) file.declarationNodes

theorem sameStructure_placedFile (style : Style) (file : SourceFile) :
    (placedFile style file).sameStructure file := by
  rw [SourceFile.sameStructure_iff]
  exact ⟨map_node_placed _ _, map_node_placed _ _⟩

/-- An empty line is passed over. -/
theorem layout_separator {style : Style} {file : SourceFile} {p : Position} {rest : List Char}
    {lexemes : List Lexeme}
    (h : Layout (p.after (Lines.join (separator style file)).toList) rest lexemes) :
    Layout p ((Lines.join (separator style file)).toList ++ rest) lexemes := by
  have hempty : (Lines.join [""]).toList = ['\n'] := by simp [Lines.toList_join]
  unfold separator at h ⊢
  split at h
  · rw [if_pos ‹_›]
    rw [hempty] at h ⊢
    exact .trivia (.blank (by simp)) h
  · rw [if_neg ‹_›]
    simpa using h

theorem toList_canonical (style : Style) (file : SourceFile) :
    (file.canonical style).toList =
      (Lines.join (file.importPaths.map (importLine style.quoteStyle))).toList ++
        ((Lines.join (separator style file)).toList ++
          (Lines.join (file.declarationNodes.map (declarationLine style.quoteStyle))).toList) := by
  rw [SourceFile.canonical, lines, Lines.toList_join_append, Lines.toList_join_append,
    List.append_assoc]

theorem parse_canonical_eq {style : Style} {file : SourceFile}
    (h : ∀ d ∈ file.declarationNodes, d.IsReadable) :
    parse (file.canonical style) = .ok (placedFile style file) := by
  obtain ⟨imports, himports, hfirst⟩ := exists_tokens_of_lines
    (fun path (_ : path ∈ file.importPaths) => isWritten_import style.quoteStyle path) .start
  obtain ⟨declarations, hdeclarations, hlater⟩ := exists_tokens_of_lines
    (fun d hd => isWritten_declaration style.quoteStyle (h d hd))
    (Position.start.after (Lines.join (linesAbove style file)).toList)
  have hderives : Derives (imports ++ declarations) (placedFile style file) :=
    ⟨imports, declarations, rfl, himports, hdeclarations⟩
  -- The end of input is behind the last line, and everything else is laid out from there upwards.
  have hlayout := hlater [] _ .done
  rw [List.append_nil, linesAbove, Lines.toList_join_append, Position.after_append] at hlayout
  have hall := hfirst _ _ (layout_separator hlayout)
  rw [← toList_canonical, ← List.append_assoc, ← List.map_append] at hall
  exact hderives.parse_of_layout rfl hall

/-! ## The lines of the text -/

theorem lineFeed_notMem_importLine (q : QuoteStyle) (path : String) :
    '\n' ∉ (importLine q path).toList := by
  have hpath := Quoted.lineFeed_notMem_encode q path
  simp [importLine, Keyword.spelling, hpath]

theorem lineFeed_notMem_declarationLine (q : QuoteStyle) {d : Declaration} (h : d.IsReadable) :
    '\n' ∉ (declarationLine q d).toList := by
  obtain ⟨hname, -⟩ := plain_of_isNamePart h.1.1.isNamePart_of_mem
  obtain ⟨hvalue, -⟩ := (@spells_literal q [] _ h.2 (by simp [EndsRun])).surplus_eq
  have hword : '\n' ∉ d.kind.keyword.spelling.toList := by
    cases d.kind <;> decide
  simp [declarationLine, Punctuation.spelling, hname, hvalue, hword]

/-- No import and no declaration breaks its line. -/
theorem cutAtFeeds_canonical {style : Style} {file : SourceFile}
    (h : ∀ d ∈ file.declarationNodes, d.IsReadable) :
    Lines.CutAtFeeds (file.canonical style) (lines style file) := by
  refine ⟨rfl, ?_⟩
  simp only [lines, List.forall_mem_append, List.forall_mem_map]
  refine ⟨⟨fun path _ => lineFeed_notMem_importLine _ path, ?_⟩,
    fun d hd => lineFeed_notMem_declarationLine _ (h d hd)⟩
  unfold separator
  split <;> simp

/-- How many lines there are between the imports and the declarations. -/
def gap (style : Style) (file : SourceFile) : Nat :=
  if style.blankLineAfterImports = true ∧ file.imports ≠ [] ∧ file.declarations ≠ [] then 1 else 0

theorem length_separator (style : Style) (file : SourceFile) :
    (separator style file).length = gap style file := by
  unfold separator gap
  by_cases h : style.blankLineAfterImports = true ∧ file.imports ≠ [] ∧ file.declarations ≠ []
  · rw [if_pos h, if_pos]
    · rfl
    · simpa [and_assoc] using h
  · rw [if_neg h, if_neg]
    · rfl
    · simpa [and_assoc] using h

/-- The line between the imports and the declarations is empty. -/
theorem getElem?_lines_of_gap {style : Style} {file : SourceFile} (h : gap style file = 1) :
    (lines style file)[file.imports.length]? = some "" := by
  have hseparator : separator style file = [""] := by
    rw [← length_separator] at h
    unfold separator at h ⊢
    split at h
    · rw [if_pos ‹_›]
    · cases h
  have hcount : (file.importPaths.map (importLine style.quoteStyle)).length =
      file.imports.length := by
    rw [List.length_map, SourceFile.importPaths, List.length_map]
  rw [lines, hseparator, List.append_assoc, ← hcount, List.getElem?_append_right (Nat.le_refl _),
    Nat.sub_self]
  rfl

theorem length_linesAbove (style : Style) (file : SourceFile) :
    (linesAbove style file).length = file.imports.length + gap style file := by
  simp [linesAbove, SourceFile.importPaths, length_separator]

theorem lines_eq (style : Style) (file : SourceFile) :
    lines style file =
      linesAbove style file ++ file.declarationNodes.map (declarationLine style.quoteStyle) := rfl

theorem length_lines (style : Style) (file : SourceFile) :
    (lines style file).length =
      file.imports.length + gap style file + file.declarations.length := by
  rw [lines_eq, List.length_append, length_linesAbove, List.length_map,
    SourceFile.declarationNodes, List.length_map]

/-! ## Spans by the numbers of lines -/

/-- Where a part is found whose line stands in a row of such lines, with other lines above and below
the row. -/
theorem line_and_span_of_placed {α : Type} {line : α → String} {span : Position → α → Span}
    {above below : List String} {as : List α} {i : Nat} {s : Spanned α}
    (hlines : ∀ l ∈ above ++ as.map line ++ below, '\n' ∉ l.toList)
    (h : (placed line span (Position.start.after (Lines.join above).toList) as)[i]? = some s) :
    (above ++ as.map line ++ below)[above.length + i]? = some (line s.node) ∧
      s.span = span ⟨Lines.startAt (above ++ as.map line ++ below) (above.length + i),
        above.length + i + 1, 1⟩ s.node := by
  rw [getElem?_placed, Option.map_eq_some_iff] at h
  obtain ⟨a, ha, rfl⟩ := h
  obtain ⟨hi, -⟩ := List.getElem?_eq_some_iff.1 ha
  have hrow : i < (as.map line).length := by rwa [List.length_map]
  have htake : (above ++ as.map line ++ below).take (above.length + i) =
      above ++ (as.take i).map line := by
    rw [List.append_assoc, List.take_length_add_append, List.take_append_of_le_length hrow.le,
      List.map_take]
  constructor
  · rw [List.append_assoc, List.getElem?_append_right (Nat.le_add_right _ _),
      Nat.add_sub_cancel_left, List.getElem?_append_left hrow, List.getElem?_map, ha,
      Option.map_some]
  · have hindex : above.length + i ≤ (above ++ as.map line ++ below).length := by
      simp only [List.length_append]
      omega
    have hplace := Lines.after_join_take hlines hindex
    rw [htake, Lines.toList_join_append, Position.after_append] at hplace
    dsimp only
    rw [hplace]

theorem importSpan_eq (q : QuoteStyle) (offset line : Nat) (path : String) :
    importSpan q ⟨offset, line, 1⟩ path =
      ⟨offset + 7, offset + (importLine q path).utf8ByteSize, line, 8⟩ := by
  have hbefore : '\n' ∉ beforePath := by decide
  have hwidth : byteWidth beforePath = 7 := by decide
  have hcount : beforePath.length = 7 := by decide
  rw [importSpan, Position.after_of_notMem hbefore,
    Position.after_of_notMem (lineFeed_notMem_importLine q path), byteWidth_toList, hwidth, hcount]
  rfl

theorem declarationSpan_eq (q : QuoteStyle) (offset line : Nat) {d : Declaration}
    (h : d.IsReadable) :
    declarationSpan q ⟨offset, line, 1⟩ d =
      ⟨offset, offset + (declarationLine q d).utf8ByteSize, line, 1⟩ := by
  rw [declarationSpan, Position.after_of_notMem (lineFeed_notMem_declarationLine q h),
    byteWidth_toList]
  rfl

section PlacedFile

variable {style : Style} {file : SourceFile} (h : ∀ d ∈ file.declarationNodes, d.IsReadable)

include h

/-- An import is on the line of its number, from its path on. -/
theorem import_placed {i : Nat} {path : Spanned String}
    (hpath : (placedFile style file).imports[i]? = some path) :
    ∃ line, (lines style file)[i]? = some line ∧ path.span =
      ⟨Lines.startAt (lines style file) i + 7,
        Lines.startAt (lines style file) i + line.utf8ByteSize, i + 1, 8⟩ := by
  have hlines : lines style file =
      [] ++ file.importPaths.map (importLine style.quoteStyle) ++
        (separator style file ++
          file.declarationNodes.map (declarationLine style.quoteStyle)) := by
    simp [lines]
  have hfeeds := (@cutAtFeeds_canonical style file h).lineFeed_notMem
  rw [hlines] at hfeeds
  obtain ⟨hline, hspan⟩ := line_and_span_of_placed hfeeds hpath
  rw [← hlines, List.length_nil, Nat.zero_add] at hline hspan
  rw [importSpan_eq] at hspan
  exact ⟨_, hline, hspan⟩

/-- A declaration is on the line of its number behind the lines above the declarations, and covers
that line. -/
theorem declaration_placed {j : Nat} {d : Spanned Declaration}
    (hd : (placedFile style file).declarations[j]? = some d) :
    ∃ i line, i = file.imports.length + gap style file + j ∧ (lines style file)[i]? = some line ∧
      d.span.textIn (file.canonical style) = line ∧ d.span =
        ⟨Lines.startAt (lines style file) i,
          Lines.startAt (lines style file) i + line.utf8ByteSize, i + 1, 1⟩ := by
  have hlines : lines style file =
      linesAbove style file ++
        file.declarationNodes.map (declarationLine style.quoteStyle) ++ [] := by
    rw [List.append_nil, lines_eq]
  have hcut := @cutAtFeeds_canonical style file h
  have hfeeds := hcut.lineFeed_notMem
  rw [hlines] at hfeeds
  obtain ⟨hline, hspan⟩ := line_and_span_of_placed hfeeds hd
  have hnode : d.node ∈ file.declarationNodes := by
    rw [← (SourceFile.sameStructure_iff.1 (sameStructure_placedFile style file)).2]
    exact List.mem_map_of_mem (List.mem_of_getElem? hd)
  rw [← hlines, length_linesAbove] at hline hspan
  rw [declarationSpan_eq _ _ _ (h _ hnode)] at hspan
  refine ⟨_, _, rfl, hline, ?_, hspan⟩
  rw [hcut.eq_join]
  refine Lines.textIn_join hline ?_ ?_ <;> rw [hspan]

end PlacedFile

end Canonical

/-- The lines of canonical source text, and where in it the parts of its tree are found.  Each import
and each declaration has a line of its own, with one empty line between them if the style asks for it
and there is something on both sides of it.  The tree that is read back has the structure of the first
one.  There an import stands from the eighth column of its line, behind the word and the space, to the
end of the line, and a declaration covers its line. -/
theorem canonical_lines_placed (style : Style) (file : SourceFile)
    (h : ∀ d ∈ file.declarationNodes, d.IsReadable) :
    ∃ (lines : List String) (again : SourceFile), Lines.CutAtFeeds (file.canonical style) lines ∧
      lines.length =
        file.imports.length + Canonical.gap style file + file.declarations.length ∧
      (Canonical.gap style file = 1 → lines[file.imports.length]? = some "") ∧
      parse (file.canonical style) = .ok again ∧ again.sameStructure file ∧
      (∀ (i : Nat) (path : Spanned String), again.imports[i]? = some path →
        ∃ line, lines[i]? = some line ∧ path.span =
          ⟨Lines.startAt lines i + 7, Lines.startAt lines i + line.utf8ByteSize, i + 1, 8⟩) ∧
      ∀ (j : Nat) (d : Spanned Declaration), again.declarations[j]? = some d →
        ∃ i line, i = file.imports.length + Canonical.gap style file + j ∧
          lines[i]? = some line ∧ d.span.textIn (file.canonical style) = line ∧ d.span =
            ⟨Lines.startAt lines i, Lines.startAt lines i + line.utf8ByteSize, i + 1, 1⟩ := by
  refine ⟨_, _, Canonical.cutAtFeeds_canonical h, Canonical.length_lines style file,
    Canonical.getElem?_lines_of_gap, Canonical.parse_canonical_eq h,
    Canonical.sameStructure_placedFile style file, ?_, ?_⟩
  · intro i path hpath
    exact Canonical.import_placed h hpath
  · intro j d hd
    exact Canonical.declaration_placed h hd

/-- A path with line ends and the delimiter in it, and a declaration of a string with a wide
character and a line feed: the declaration is on the third line, behind an empty one. -/
theorem canonical_lines_placed_line_feeds_quoted :
    ∃ lines again, Lines.CutAtFeeds (SourceFile.canonical ⟨2, .single, true⟩
        ⟨[⟨"a\r\n'é", 0, 0, 1, 1⟩], [⟨⟨.var, "_x", .string "é\n = 1"⟩, 0, 0, 1, 1⟩]⟩) lines ∧
      lines.length = 3 ∧ parse (SourceFile.canonical ⟨2, .single, true⟩
        ⟨[⟨"a\r\n'é", 0, 0, 1, 1⟩], [⟨⟨.var, "_x", .string "é\n = 1"⟩, 0, 0, 1, 1⟩]⟩) = .ok again ∧
      ∀ d, again.declarations[0]? = some d → d.span.line = 3 ∧ d.span.column = 1 := by
  have hpart : ∀ c ∈ ['x'], isNamePart c = true := List.forall_mem_singleton.2 (by decide)
  have hword : IsName "_x" :=
    ⟨⟨'_', ['x'], rfl, by decide, hpart⟩, fun k => by cases k <;> decide⟩
  have hreadable : Declaration.IsReadable ⟨.var, "_x", .string "é\n = 1"⟩ := ⟨hword, by simp⟩
  obtain ⟨lines, again, hcut, hcount, -, hparse, -, -, hdeclarations⟩ :=
    canonical_lines_placed ⟨2, .single, true⟩
      ⟨[⟨"a\r\n'é", 0, 0, 1, 1⟩], [⟨⟨.var, "_x", .string "é\n = 1"⟩, 0, 0, 1, 1⟩]⟩
      (List.forall_mem_singleton.2 hreadable)
  refine ⟨lines, again, hcut, hcount, hparse, ?_⟩
  intro d hd
  obtain ⟨_, _, rfl, -, -, hspan⟩ := hdeclarations 0 d hd
  rw [hspan]
  exact ⟨rfl, rfl⟩

end DeclLang
