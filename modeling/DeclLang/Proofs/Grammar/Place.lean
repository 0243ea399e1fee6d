import DeclLang.Proofs.Grammar.Agreement
import DeclLang.Proofs.Lexical.Place

/-!
# The places of trees and errors

The spans of a tree are those of its tokens, merged for a declaration, and the span of an error is
that of a lexeme (`SyntaxError.LiesIn`).  So what holds of the lexemes of a source text holds of all
that is made of them: `places_exact` says that every line and every column is the one that
counting afresh gives for the place where the span starts.
-/

namespace DeclLang

/-! ## Errors -/

theorem Lexeme.CutAt.liesIn {lexemes : List Lexeme} {e : SyntaxError} (h : CutAt lexemes e) :
    e.LiesIn lexemes := by
  obtain ⟨before, after, rfl, -, hcut⟩ := h
  rcases hcut with ⟨error, more, rfl, rfl⟩ | ⟨g, rfl, hlies⟩
  · have herror : (SyntaxError.lexical error).LiesIn (.error error :: more) :=
      ⟨.error error, List.mem_cons_self, rfl⟩
    exact herror.append_right
  · exact hlies.append_left

theorem Feed.errors_liesIn {feed : Feed} {e : SyntaxError} (h : e ∈ feed.errors) :
    e.LiesIn feed.lexemes := by
  rw [errors, List.mem_append] at h
  rcases h with hleading | hpasses
  · rw [← Lexeme.filterMap_syntaxError?] at hleading
    exact (Lexeme.liesIn_of_mem_filterMap hleading).append_left
  · exact (passes_errors_liesIn e hpasses).append_right

theorem isPlaced_of_liesIn {source : String} {e : SyntaxError}
    (h : e.LiesIn (Feed.ofString source).lexemes) : e.span.IsPlaced source := by
  rw [Feed.lexemes_ofString] at h
  obtain ⟨lexeme, hmem, hspan⟩ := h
  rw [← hspan]
  exact isPlaced_of_mem_ofString hmem

theorem isPlaced_of_parse_error {source : String} {e : SyntaxError} (h : parse source = .error e) :
    e.span.IsPlaced source :=
  isPlaced_of_liesIn (Feed.problem_cut (Feed.parse_eq_error_iff.1 h)).liesIn

theorem Feed.mem_errors_of_parseAll {feed : Feed} {errors : List SyntaxError}
    (h : feed.parseAll = .error errors) {e : SyntaxError} (he : e ∈ errors) : e ∈ feed.errors := by
  unfold parseAll at h
  split at h
  · cases h
  · cases h
    exact List.mem_mergeSort.1 he

/-! ## Trees -/

/-- Every span of the tree starts at the line and the column that it tells. -/
def SourceFile.IsPlaced (source : String) (file : SourceFile) : Prop :=
  (∀ path ∈ file.imports, path.span.IsPlaced source) ∧
    ∀ d ∈ file.declarations, d.span.IsPlaced source

theorem DerivesImport.isPlaced {source : String} {tokens : List Token} {path : Spanned String}
    (h : DerivesImport tokens path) (htokens : ∀ t ∈ tokens, t.span.IsPlaced source) :
    path.span.IsPlaced source := by
  cases h with
  | @intro start span path => exact htokens ⟨.string path, span⟩ (by simp)

theorem DerivesDeclaration.isPlaced {source : String} {tokens : List Token}
    {d : Spanned Declaration} (h : DerivesDeclaration tokens d)
    (htokens : ∀ t ∈ tokens, t.span.IsPlaced source) : d.span.IsPlaced source := by
  cases h with
  | @intro kind name literal value start nameSpan markSpan span hvalue =>
    have hstart : start.IsPlaced source := htokens ⟨.keyword kind.keyword, start⟩ (by simp)
    have hspan : span.IsPlaced source := htokens ⟨literal, span⟩ (by simp)
    exact hstart.merge hspan

theorem DerivesRow.isPlaced {α : Type} {R : List Token → Spanned α → Prop} {source : String}
    {tokens : List Token} {as : List (Spanned α)} (h : DerivesRow R tokens as)
    (hR : ∀ part a, R part a → (∀ t ∈ part, t.span.IsPlaced source) → a.span.IsPlaced source)
    (htokens : ∀ t ∈ tokens, t.span.IsPlaced source) : ∀ a ∈ as, a.span.IsPlaced source := by
  intro a ha
  obtain ⟨part, hsub, hpart⟩ := h.exists_infix_of_mem ha
  exact hR part a hpart fun t ht => htokens t (hsub.subset ht)

theorem Derives.isPlaced {source : String} {tokens : List Token} {file : SourceFile}
    (h : Derives tokens file) (htokens : ∀ t ∈ tokens, t.span.IsPlaced source) :
    file.IsPlaced source := by
  obtain ⟨imports, declarations, rfl, himports, hdeclarations⟩ := h
  rw [List.forall_mem_append] at htokens
  exact ⟨himports.isPlaced (fun _ _ => DerivesImport.isPlaced) htokens.1,
    hdeclarations.isPlaced (fun _ _ => DerivesDeclaration.isPlaced) htokens.2⟩

theorem isPlaced_of_parse_ok {source : String} {file : SourceFile} (h : parse source = .ok file) :
    file.IsPlaced source := by
  obtain ⟨-, -, hderives⟩ := Feed.parse_eq_ok_iff.1 h
  refine hderives.isPlaced ?_
  intro t ht
  obtain ⟨entry, hentry, rfl⟩ := List.mem_map.1 ht
  exact isPlaced_of_mem_ofString (Feed.token_mem_of_behind hentry).1

/-! ## Source texts -/

/-- Every line and column is the one of the place where its span starts: in the tokens and the
errors that a cursor answers with, up to the end of input, in the tree that the text makes, and in
the errors that are given of it, be it the first problem or all. -/
theorem places_exact (source : String) :
    (∃ lexemes, (Cursor.ofString source).Yields lexemes ∧
      ∀ lexeme ∈ lexemes, lexeme.span.IsPlaced source) ∧
    (∀ file, parse source = .ok file → file.IsPlaced source) ∧
    (∀ e, parse source = .error e → e.span.IsPlaced source) ∧
    ∀ errors, parseAll source = .error errors → ∀ e ∈ errors, e.span.IsPlaced source := by
  refine ⟨⟨_, Cursor.yields_ofString source, fun _ => isPlaced_of_mem_ofString⟩,
    fun _ => isPlaced_of_parse_ok, fun _ => isPlaced_of_parse_error, ?_⟩
  intro errors herrors e he
  exact isPlaced_of_liesIn (Feed.errors_liesIn (Feed.mem_errors_of_parseAll herrors he))

/-- A stray letter behind a byte order mark and a comment that ends on the second line. -/
theorem places_exact_stray_letter :
    parse "\uFEFF/* é\n */ var ö = 1" =
      .error (.lexical ⟨.unexpectedChar 'ö', ⟨17, 19, 2, 9⟩⟩) ∧
    Span.IsPlaced "\uFEFF/* é\n */ var ö = 1" ⟨17, 19, 2, 9⟩ := by
  have hparse : parse "\uFEFF/* é\n */ var ö = 1" =
      .error (.lexical ⟨.unexpectedChar 'ö', ⟨17, 19, 2, 9⟩⟩) := by decide +kernel
  exact ⟨hparse, (places_exact _).2.2.1 _ hparse⟩

end DeclLang
