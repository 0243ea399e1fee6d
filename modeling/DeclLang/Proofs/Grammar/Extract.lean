import DeclLang.Proofs.Grammar.Place
import DeclLang.Proofs.Lexical.Stretch

/-!
# Parts of a tree cut out of their source text

A part of a tree has a span, and the stretch of source text that the span covers is the part: read
on its own it says the same and nothing else.  `parse_extract` says this for a whole tree.

It goes by way of the tokens.  A part is derived from some tokens in a row
(`DerivesRow.exists_infix_of_mem`), and its span goes from one of them to another
(`Span.LiesAmong`).  Since the tokens of a source text come in order without overlapping, so do
the spans of its tree (`Derives.pairwise_spans`), and since the tokens of a stretch are those of the
text, moved to the front (`ofString_textIn`), they derive the same part again.
-/

namespace DeclLang

/-! ## Tokens of a source text -/

section Tokens

variable {source : String} {tokens : List Token} {t : Token}

theorem exists_tokens_of_parse {file : SourceFile} (h : parse source = .ok file) :
    ∃ tokens, Lexeme.ofString source = tokens.map .token ∧ Derives (beforeEof tokens) file := by
  cases hlex : lex source with
  | ok tokens =>
    have htokens := lex_eq_ok_iff.1 hlex
    rw [parse_eq_parseTokens htokens, parseTokens_eq_ok_iff] at h
    exact ⟨tokens, htokens, h⟩
  | error error =>
    rw [lex_eq_error_iff, ← Feed.lexemes_ofString] at hlex
    obtain ⟨e, hproblem⟩ := Feed.exists_problem (Lexeme.error_mem_of_findSome? hlex)
    rw [parse, Feed.parse_eq_error_iff.2 hproblem] at h
    cases h

/-- A token of a source text is a source text of its own. -/
theorem lex_textIn (h : .token t ∈ Lexeme.ofString source) (ht : t.kind ≠ .eof) :
    t.span.IsWithin source ∧
      lex (t.span.textIn source) = .ok (Token.alone t.kind (t.span.textIn source)) := by
  have hreading : IsReading source (Lexeme.ofString source) := isReading_iff.2 rfl
  obtain ⟨init, eof, hlexemes, heof, -, -, hinit⟩ := hreading.coversSource
  rw [hlexemes, List.mem_append, List.mem_singleton] at h
  rcases h with hmem | hlast
  · obtain ⟨before, text, rest, hsource, hne, hstart, hstop, hspells⟩ := hinit _ hmem
    refine ⟨Span.isWithin_of_ne_nil hsource hstart hstop hne, ?_⟩
    have htext : t.span.textIn source = String.ofList text := Span.textIn_eq hsource hstart hstop
    rw [htext]
    apply Spells.lex_eq_alone
    rw [String.toList_ofList]
    exact hspells
  · cases hlast
    exact absurd heof ht

/-- The token lies before the other, and the two do not overlap. -/
def Token.Precedes (t u : Token) : Prop := t.span.stop ≤ u.span.start

theorem precedes_ofString (h : Lexeme.ofString source = tokens.map .token) :
    tokens.Pairwise Token.Precedes ∧ ∀ t ∈ tokens, t.span.start ≤ t.span.stop := by
  have hreading : IsReading source (tokens.map .token) := isReading_iff.2 h.symm
  obtain ⟨init, eof, hlexemes, -, hstart, hstop, hinit⟩ := hreading.coversSource
  obtain ⟨mark, p, cs, -, -, hlayout⟩ := hreading.exists_layout
  have hpairwise := hlayout.pairwise.2
  rw [List.pairwise_map] at hpairwise
  refine ⟨hpairwise, ?_⟩
  intro t ht
  have hmem : Lexeme.token t ∈ init ++ [.token eof] := by
    rw [← hlexemes]
    exact List.mem_map_of_mem ht
  rw [List.mem_append, List.mem_singleton] at hmem
  rcases hmem with hmem | hlast
  · exact Nat.le_of_lt (hinit _ hmem).start_lt_stop.1
  · cases hlast
    omega

/-- A span that starts with the text starts on the first line, in the first column. -/
theorem Span.IsPlaced.at_start {s : Span} (h : s.IsPlaced source) (hstart : s.start = 0) :
    s.line = 1 ∧ s.column = 1 := by
  have hwithin : charsWithin 0 source.toList = [] := charsWithin_byteWidth [] source.toList
  obtain ⟨hline, hcolumn⟩ := h
  rw [lineAt, hstart, hwithin] at hline
  rw [columnAt, hstart, hwithin] at hcolumn
  exact ⟨hline, hcolumn⟩

/-- Tokens that have been moved end where the tokens themselves do. -/
theorem Token.MovedBy.beforeEof {bytes : Nat} {moved : List Token}
    (h : List.Forall₂ (MovedBy bytes) tokens moved) :
    List.Forall₂ (MovedBy bytes) (beforeEof tokens) (DeclLang.beforeEof moved) := by
  induction h with
  | nil => exact .nil
  | @cons t t' ts ts' ht _ ih =>
    by_cases heof : t.kind = .eof
    · have heof' : t'.kind = .eof := ht.1.trans heof
      simp [DeclLang.beforeEof, heof, heof']
    · have heof' : t'.kind ≠ .eof := by rwa [ht.1]
      simpa [DeclLang.beforeEof, heof, heof'] using ⟨ht, ih⟩

end Tokens

/-! ## The spans of a tree -/

/-- The spans of a tree: those of its imports, and then those of its declarations. -/
def SourceFile.spans (file : SourceFile) : List Span :=
  file.imports.map Spanned.span ++ file.declarations.map Spanned.span

theorem Span.merge_start (s t : Span) : (s.merge t).start = min s.start t.start := by
  unfold merge
  by_cases hle : s.start ≤ t.start
  · simp only [hle, if_true]
    omega
  · simp only [hle, if_false]
    omega

theorem Span.merge_stop (s t : Span) : (s.merge t).stop = max s.stop t.stop := rfl

/-- The span goes from the start of one of the tokens to the end of one of them. -/
def Span.LiesAmong (tokens : List Token) (s : Span) : Prop :=
  ∃ first ∈ tokens, ∃ last ∈ tokens, s.start = first.span.start ∧ s.stop = last.span.stop

theorem Span.LiesAmong.mono {part tokens : List Token} {s : Span} (h : s.LiesAmong part)
    (hsubset : part ⊆ tokens) : s.LiesAmong tokens := by
  obtain ⟨first, hfirst, last, hlast, hspan⟩ := h
  exact ⟨first, hsubset hfirst, last, hsubset hlast, hspan⟩

/-- Merging two spans takes each end from one of the two. -/
theorem Span.LiesAmong.merge {tokens : List Token} {s t : Span} (hs : s.LiesAmong tokens)
    (ht : t.LiesAmong tokens) : (s.merge t).LiesAmong tokens := by
  obtain ⟨first, hfirst, last, hlast, hstart, hstop⟩ := hs
  obtain ⟨first', hfirst', last', hlast', hstart', hstop'⟩ := ht
  have hbegins : ∃ u ∈ tokens, (s.merge t).start = u.span.start := by
    rw [merge_start]
    by_cases hle : s.start ≤ t.start
    · exact ⟨first, hfirst, by omega⟩
    · exact ⟨first', hfirst', by omega⟩
  have hends : ∃ u ∈ tokens, (s.merge t).stop = u.span.stop := by
    rw [merge_stop]
    by_cases hle : s.stop ≤ t.stop
    · exact ⟨last', hlast', by omega⟩
    · exact ⟨last, hlast, by omega⟩
  obtain ⟨u, hu, hbegin⟩ := hbegins
  obtain ⟨v, hv, hend⟩ := hends
  exact ⟨u, hu, v, hv, hbegin, hend⟩

theorem DerivesImport.liesAmong {tokens : List Token} {path : Spanned String}
    (h : DerivesImport tokens path) : path.span.LiesAmong tokens := by
  cases h with
  | @intro start span path =>
    exact ⟨⟨.string path, span⟩, by simp, ⟨.string path, span⟩, by simp, rfl, rfl⟩

theorem DerivesDeclaration.liesAmong {tokens : List Token} {d : Spanned Declaration}
    (h : DerivesDeclaration tokens d) : d.span.LiesAmong tokens := by
  cases h with
  | @intro kind name literal value start nameSpan markSpan span hvalue =>
    refine Span.LiesAmong.merge ?_ ?_
    · exact ⟨⟨.keyword kind.keyword, start⟩, by simp, ⟨.keyword kind.keyword, start⟩, by simp,
        rfl, rfl⟩
    · exact ⟨⟨literal, span⟩, by simp, ⟨literal, span⟩, by simp, rfl, rfl⟩

/-- What lies among the first tokens of a row ends before what lies among the later ones. -/
theorem Span.LiesAmong.stop_le_start {before after : List Token} {s t : Span}
    (hs : s.LiesAmong before) (ht : t.LiesAmong after)
    (h : ∀ a ∈ before, ∀ b ∈ after, a.Precedes b) : s.stop ≤ t.start := by
  obtain ⟨-, -, last, hlast, -, hstop⟩ := hs
  obtain ⟨first, hfirst, -, -, hstart, -⟩ := ht
  rw [hstop, hstart]
  exact h last hlast first hfirst

section Row

variable {α : Type} {R : List Token → Spanned α → Prop} {tokens : List Token}
  {as : List (Spanned α)}

theorem DerivesRow.liesAmong (h : DerivesRow R tokens as)
    (hR : ∀ part a, R part a → a.span.LiesAmong part) :
    ∀ s ∈ as.map Spanned.span, s.LiesAmong tokens := by
  intro s hs
  obtain ⟨a, ha, rfl⟩ := List.mem_map.1 hs
  obtain ⟨part, hsub, hpart⟩ := h.exists_infix_of_mem ha
  exact (hR part a hpart).mono hsub.subset

theorem DerivesRow.pairwise_spans (h : DerivesRow R tokens as)
    (hR : ∀ part a, R part a → a.span.LiesAmong part) (htokens : tokens.Pairwise Token.Precedes) :
    (as.map Spanned.span).Pairwise fun s t => s.stop ≤ t.start := by
  induction h with
  | nil => exact .nil
  | cons hfirst hlater ih =>
    obtain ⟨-, hmore, hcross⟩ := List.pairwise_append.1 htokens
    refine .cons ?_ (ih hmore)
    intro s hs
    exact (hR _ _ hfirst).stop_le_start (hlater.liesAmong hR s hs) hcross

end Row

/-- The spans of a tree come in order without overlapping if its tokens do. -/
theorem Derives.pairwise_spans {tokens : List Token} {file : SourceFile} (h : Derives tokens file)
    (htokens : tokens.Pairwise Token.Precedes) :
    file.spans.Pairwise fun s t => s.stop ≤ t.start := by
  obtain ⟨imports, declarations, rfl, himports, hdeclarations⟩ := h
  obtain ⟨hfirst, hlater, hcross⟩ := List.pairwise_append.1 htokens
  refine List.pairwise_append.2
    ⟨himports.pairwise_spans (fun _ _ => DerivesImport.liesAmong) hfirst,
      hdeclarations.pairwise_spans (fun _ _ => DerivesDeclaration.liesAmong) hlater, ?_⟩
  intro s hs t ht
  exact (himports.liesAmong (fun _ _ => DerivesImport.liesAmong) s hs).stop_le_start
    (hdeclarations.liesAmong (fun _ _ => DerivesDeclaration.liesAmong) t ht) hcross

/-! ## Imports and declarations -/

/-- The stretch of source text that the span of an import covers is the token of its path. -/
theorem DerivesImport.lex_textIn {source : String} {tokens part : List Token}
    {path : Spanned String} (h : DerivesImport part path) (hpart : part ⊆ tokens)
    (hsource : Lexeme.ofString source = tokens.map .token) :
    path.span.IsWithin source ∧ lex (path.span.textIn source) =
      .ok (Token.alone (.string path.node) (path.span.textIn source)) := by
  cases h with
  | @intro start span path =>
    have hmem : ⟨.string path, span⟩ ∈ tokens := hpart (by simp)
    have hlexeme : .token ⟨.string path, span⟩ ∈ Lexeme.ofString source := by
      rw [hsource]
      exact List.mem_map_of_mem hmem
    exact DeclLang.lex_textIn hlexeme nofun

namespace DerivesDeclaration

variable {tokens : List Token} {d : Spanned Declaration}

theorem kind_ne_eof (h : DerivesDeclaration tokens d) : ∀ t ∈ tokens, t.kind ≠ .eof := by
  cases h with
  | intro hvalue => cases hvalue <;> simp

/-- Where tokens come in order, the span of a declaration goes from the first of its tokens to the
last. -/
theorem exists_ends (h : DerivesDeclaration tokens d) (hprecedes : tokens.Pairwise Token.Precedes)
    (hle : ∀ t ∈ tokens, t.span.start ≤ t.span.stop) :
    ∃ ts first last, tokens = ts ++ [last] ∧ tokens.head? = some first ∧
      d.span.start = first.span.start ∧ d.span.stop = last.span.stop := by
  cases h with
  | @intro kind name literal value start nameSpan markSpan span hvalue =>
    have hstart : start.start ≤ start.stop := hle ⟨.keyword kind.keyword, start⟩ (by simp)
    have hspan : span.start ≤ span.stop := hle ⟨literal, span⟩ (by simp)
    have hmem : (⟨literal, span⟩ : Token) ∈ [(⟨.ident name, nameSpan⟩ : Token),
        ⟨.punctuation .eq, markSpan⟩, ⟨literal, span⟩] := by simp
    have hbetween : start.stop ≤ span.start := List.rel_of_pairwise_cons hprecedes hmem
    refine ⟨[_, _, _], _, ⟨literal, span⟩, rfl, rfl, ?_, ?_⟩
    · rw [Span.merge_start]
      exact Nat.min_eq_left (by omega)
    · rw [Span.merge_stop]
      exact Nat.max_eq_right (by omega)

/-- The tokens of a declaration, wherever they have been moved to, derive it. -/
theorem of_moved {moved : List Token} {bytes : Nat} (h : DerivesDeclaration tokens d)
    (hmoved : List.Forall₂ (Token.MovedBy bytes) tokens moved) :
    ∃ span, DerivesDeclaration moved ⟨d.node, span⟩ ∧ d.span.start = span.start + bytes ∧
      d.span.stop = span.stop + bytes := by
  cases h with
  | @intro kind name literal value start nameSpan markSpan span hvalue =>
    cases hmoved with | @cons _ keyword' _ _ hkeyword hmoved =>
    cases hmoved with | @cons _ name' _ _ hname hmoved =>
    cases hmoved with | @cons _ mark' _ _ hmark hmoved =>
    cases hmoved with | @cons _ literal' _ _ hliteral hmoved =>
    cases hmoved
    obtain ⟨_, start'⟩ := keyword'
    obtain ⟨_, nameSpan'⟩ := name'
    obtain ⟨_, markSpan'⟩ := mark'
    obtain ⟨_, span'⟩ := literal'
    obtain ⟨rfl, hstart, hstop⟩ := hkeyword
    obtain ⟨rfl, -⟩ := hname
    obtain ⟨rfl, -⟩ := hmark
    obtain ⟨rfl, hstart', hstop'⟩ := hliteral
    refine ⟨start'.merge span', .intro hvalue, ?_, ?_⟩
    · rw [Span.merge_start, Span.merge_start]
      dsimp only at hstart hstart'
      omega
    · rw [Span.merge_stop, Span.merge_stop]
      dsimp only at hstop hstop'
      omega

/-- The stretch of source text that the span of a declaration covers is a source text with that
declaration and nothing else. -/
theorem parse_textIn {source : String} {before after : List Token} (h : DerivesDeclaration tokens d)
    (hsource : Lexeme.ofString source = (before ++ tokens ++ after).map .token) :
    d.span.IsWithin source ∧
      parse (d.span.textIn source) = .ok ⟨[], [⟨d.node, ⟨0, d.span.length, 1, 1⟩⟩]⟩ := by
  obtain ⟨hprecedes, hle⟩ := precedes_ofString hsource
  have hsub : tokens <:+: before ++ tokens ++ after := ⟨before, after, rfl⟩
  obtain ⟨ts, first, last, htokens, hfirst, hstart, hstop⟩ :=
    h.exists_ends (hprecedes.sublist hsub.sublist) fun t ht => hle t (hsub.subset ht)
  have hlast : last.kind ≠ .eof := h.kind_ne_eof last (by simp [htokens])
  rw [htokens] at hsource hfirst
  obtain ⟨hwithin, -, moved, hmoved, hall⟩ := ofString_textIn hsource hlast hfirst hstart hstop
  refine ⟨hwithin, ?_⟩
  -- The tokens before the end of input are those of the declaration, moved to the front.
  have hbefore : beforeEof (ts ++ [last, last.endBehind]) = tokens := by
    have hends : ts ++ [last, last.endBehind] = tokens ++ [last.endBehind] := by simp [htokens]
    rw [hends, beforeEof_append h.kind_ne_eof]
    exact List.append_nil tokens
  have hall' := Token.MovedBy.beforeEof hall
  rw [hbefore] at hall'
  obtain ⟨span, hderives, hspanStart, hspanStop⟩ := h.of_moved hall'
  have hplaced : span.IsPlaced (d.span.textIn source) := by
    refine hderives.isPlaced fun t ht => ?_
    have hlexeme : .token t ∈ Lexeme.ofString (d.span.textIn source) := by
      rw [hmoved]
      exact List.mem_map_of_mem ((List.takeWhile_prefix _).subset ht)
    exact isPlaced_of_mem_ofString hlexeme
  have hspan : span = ⟨0, d.span.length, 1, 1⟩ := by
    obtain ⟨hline, hcolumn⟩ := hplaced.at_start (by omega)
    have hlength : span.stop = d.span.length := by
      rw [Span.length]
      omega
    obtain ⟨start, stop, line, column⟩ := span
    dsimp only at hspanStart hline hcolumn hlength
    obtain rfl : start = 0 := by omega
    rw [hline, hcolumn, hlength]
  have hrow := DerivesRow.cons hderives .nil
  rw [List.append_nil, hspan] at hrow
  rw [parse_eq_parseTokens hmoved, parseTokens_eq_ok_iff]
  exact ⟨[], _, rfl, .nil, hrow⟩

end DerivesDeclaration

/-! ## Source texts -/

/-- The spans of a tree cut its parts out of the source text.  They lie in the text, between two
characters, in order and apart from each other.  What the span of a declaration covers is read as
that declaration alone, and what the span of an import covers is the token of its path. -/
theorem parse_extract {source : String} {file : SourceFile} (h : parse source = .ok file) :
    (∀ s ∈ file.spans, s.IsWithin source) ∧
    file.spans.Pairwise (fun s t => s.stop ≤ t.start) ∧
    (∀ d ∈ file.declarations, parse (d.span.textIn source) =
      .ok ⟨[], [⟨d.node, ⟨0, d.span.length, 1, 1⟩⟩]⟩) ∧
    ∀ path ∈ file.imports, lex (path.span.textIn source) =
      .ok (Token.alone (.string path.node) (path.span.textIn source)) := by
  obtain ⟨tokens, htokens, hderives⟩ := exists_tokens_of_parse h
  have hfront : beforeEof tokens <+: tokens := List.takeWhile_prefix _
  have hpairwise := hderives.pairwise_spans
    ((precedes_ofString htokens).1.sublist hfront.sublist)
  obtain ⟨imports, declarations, hsplit, himports, hdeclarations⟩ := hderives
  have himport : ∀ path ∈ file.imports, path.span.IsWithin source ∧
      lex (path.span.textIn source) =
        .ok (Token.alone (.string path.node) (path.span.textIn source)) := by
    intro path hpath
    obtain ⟨part, hpart, hderived⟩ := himports.exists_infix_of_mem hpath
    have hall : imports ⊆ tokens := by
      rw [hsplit] at hfront
      exact List.Subset.trans (List.subset_append_left _ _) hfront.subset
    exact hderived.lex_textIn (List.Subset.trans hpart.subset hall) htokens
  have hdeclaration : ∀ d ∈ file.declarations, d.span.IsWithin source ∧
      parse (d.span.textIn source) = .ok ⟨[], [⟨d.node, ⟨0, d.span.length, 1, 1⟩⟩]⟩ := by
    intro d hd
    obtain ⟨part, hpart, hderived⟩ := hdeclarations.exists_infix_of_mem hd
    have hrun : part <:+: beforeEof tokens := by
      rw [hsplit]
      exact hpart.trans (List.suffix_append imports declarations).isInfix
    obtain ⟨before, after, hall⟩ := hrun.trans hfront.isInfix
    rw [← hall] at htokens
    exact hderived.parse_textIn htokens
  refine ⟨?_, hpairwise, fun d hd => (hdeclaration d hd).2,
    fun path hpath => (himport path hpath).2⟩
  intro s hs
  rcases List.mem_append.1 hs with hs | hs
  · obtain ⟨path, hpath, rfl⟩ := List.mem_map.1 hs
    exact (himport path hpath).1
  · obtain ⟨d, hd, rfl⟩ := List.mem_map.1 hs
    exact (hdeclaration d hd).1

/-- An import behind a byte order mark, and two declarations that touch, the second of them with a
comment and a line end in it. -/
theorem parse_extract_touching :
    let source := "\uFEFFimport /* é */ 'a\\n'\nvar a = 1func /*ü*/ b\n= \"é\" // x"
    let file : SourceFile := ⟨[⟨"a\n", ⟨19, 24, 1, 16⟩⟩],
      [⟨⟨.var, "a", .integer 1⟩, ⟨25, 34, 2, 1⟩⟩, ⟨⟨.func, "b", .string "é"⟩, ⟨34, 54, 2, 10⟩⟩]⟩
    parse source = .ok file ∧
      (∀ s ∈ file.spans, s.IsWithin source) ∧
      file.spans.Pairwise (fun s t => s.stop ≤ t.start) ∧
      (∀ d ∈ file.declarations, parse (d.span.textIn source) =
        .ok ⟨[], [⟨d.node, ⟨0, d.span.length, 1, 1⟩⟩]⟩) ∧
      ∀ path ∈ file.imports, lex (path.span.textIn source) =
        .ok (Token.alone (.string path.node) (path.span.textIn source)) := by
  intro source file
  have hparse : parse source = .ok file := by decide +kernel
  exact ⟨hparse, parse_extract hparse⟩

end DeclLang
