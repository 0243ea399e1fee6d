import DeclLang.Proofs.Grammar.Reader

/-!
# Spans have no influence on reading

What a token makes of a stage depends on its kind alone.  Its span is only carried along, into the
tree and into the errors.  To say so, spans are left out of everything that has some: of a token, a
stage, an item, a tree, an error.  Leaving them out before a step or behind it is the same
(`Stage.GoesOn.unplaced` and its companions), and so it is for a row of tokens
(`Reader.result_unplaced`).

So rows of tokens of the same kinds come to the same, spans apart
(`parseTokens_unplaced_of_kinds`).  For trees, the same apart from spans is what
`SourceFile.sameStructure` compares.
-/

namespace DeclLang

/-! ## Leaving spans out -/

/-- A token of the same kind at no place in particular. -/
def Token.unplaced (t : Token) : Token := ⟨t.kind, .atStart⟩

/-- A part of a tree without where it came from. -/
def Spanned.unplaced {α : Type} (a : Spanned α) : Spanned α := ⟨a.node, .atStart⟩

/-- An item without where it came from. -/
def Item.unplaced : Item → Item
  | .import path => .import path.unplaced
  | .declaration d => .declaration d.unplaced

/-- A tree without where its parts came from. -/
def SourceFile.unplaced (file : SourceFile) : SourceFile :=
  ⟨file.imports.map Spanned.unplaced, file.declarations.map Spanned.unplaced⟩

/-- A grammar error without where it is. -/
def GrammarError.unplaced : GrammarError → GrammarError
  | .unexpectedToken expected found => .unexpectedToken expected found.unplaced
  | .integerOverflow digits _ => .integerOverflow digits .atStart

/-- An error without where it is. -/
def SyntaxError.unplaced : SyntaxError → SyntaxError
  | .lexical error => .lexical ⟨error.fault, .atStart⟩
  | .grammar error => .grammar error.unplaced

/-- What reading came to, without the spans. -/
def unplacedOutcome : Except SyntaxError SourceFile → Except SyntaxError SourceFile
  | .ok file => .ok file.unplaced
  | .error e => .error e.unplaced

/-- A stage that has not kept where its declaration begins. -/
def Stage.unplaced : Stage → Stage
  | .atItem declared => .atItem declared
  | .atPath => .atPath
  | .atName kind _ => .atName kind .atStart
  | .atMark kind _ name => .atMark kind .atStart name
  | .atValue kind _ name => .atValue kind .atStart name

/-- A reader that has not kept any span. -/
def Reader.unplaced (r : Reader) : Reader := ⟨r.stage.unplaced, r.items.map Item.unplaced⟩

/-- Trees are equal without their spans if they say the same. -/
theorem SourceFile.unplaced_eq_iff {a b : SourceFile} :
    a.unplaced = b.unplaced ↔ a.sameStructure b := by
  have hmap : ∀ {α : Type} (as bs : List (Spanned α)),
      as.map Spanned.unplaced = bs.map Spanned.unplaced ↔
        as.map Spanned.node = bs.map Spanned.node := by
    intro α as bs
    have hnode : Spanned.node ∘ Spanned.unplaced = @Spanned.node α := rfl
    have hunplaced : (Spanned.mk · Span.atStart) ∘ Spanned.node = @Spanned.unplaced α := rfl
    constructor
    · intro h
      rw [← hnode, ← List.map_map, h, List.map_map]
    · intro h
      rw [← hunplaced, ← List.map_map, h, List.map_map]
  rw [SourceFile.sameStructure_iff, unplaced, unplaced, SourceFile.mk.injEq, hmap, hmap]
  rfl

theorem SourceFile.ofItems_unplaced (items : List Item) :
    ofItems (items.map Item.unplaced) = (ofItems items).unplaced := by
  have himport : Item.import? ∘ Item.unplaced = Option.map Spanned.unplaced ∘ Item.import? := by
    funext item
    cases item <;> rfl
  have hdeclaration :
      Item.declaration? ∘ Item.unplaced = Option.map Spanned.unplaced ∘ Item.declaration? := by
    funext item
    cases item <;> rfl
  rw [ofItems, ofItems, unplaced, List.filterMap_map, List.filterMap_map, himport, hdeclaration,
    List.map_filterMap, List.map_filterMap]
  rfl

/-! ## Single tokens -/

namespace Stage

variable {stage next : Stage} {t : Token}

theorem expected_unplaced (stage : Stage) : stage.unplaced.expected = stage.expected := by
  cases stage <;> rfl

theorem unexpected_unplaced (stage : Stage) (t : Token) :
    stage.unplaced.unexpected t.unplaced = (stage.unexpected t).unplaced := by
  rw [unexpected, expected_unplaced]
  rfl

theorem GoesOn.unplaced (h : stage.GoesOn t next) :
    stage.unplaced.GoesOn t.unplaced next.unplaced := by
  cases h with
  | «import» => exact .import
  | declaration => exact .declaration
  | name => exact .name
  | mark => exact .mark

theorem Finishes.unplaced_item {item : Item} (h : stage.Finishes t (.ok item)) :
    stage.unplaced.Finishes t.unplaced (.ok item.unplaced) := by
  cases h with
  | path => exact .path
  | string => exact .string
  | integer hdigits => exact .integer hdigits

theorem Finishes.unplaced_error {g : GrammarError} (h : stage.Finishes t (.error g)) :
    stage.unplaced.Finishes t.unplaced (.error g.unplaced) := by
  cases h with
  | overflow hdigits => exact .overflow hdigits

theorem step_eof (stage : Stage) (span : Span) : stage.step ⟨.eof, span⟩ = .refuse := by
  rcases stage.step_cases ⟨.eof, span⟩ with ⟨next, hgo⟩ | ⟨outcome, hfinish⟩ | hrefuse
  · cases hgo
  · cases hfinish
  · exact hrefuse

theorem step_unplaced_of_refuse (h : stage.step t = .refuse) :
    stage.unplaced.step t.unplaced = .refuse := by
  by_cases heof : t.kind = .eof
  · rw [Token.unplaced, heof]
    exact stage.unplaced.step_eof .atStart
  · have hclass : t.kind.tokenClass ∉ stage.unplaced.expected := by
      rw [expected_unplaced]
      exact (step_eq_refuse_iff heof).1 h
    have heof' : t.unplaced.kind ≠ .eof := heof
    exact (step_eq_refuse_iff heof').2 hclass

end Stage

/-! ## Rows of tokens -/

/-- Leaving the spans out of a row of tokens leaves them out of what it comes to. -/
theorem Reader.result_unplaced (eof : Token) (r : Reader) (ts : List Token) :
    result eof.unplaced r.unplaced (ts.map Token.unplaced) = unplacedOutcome (result eof r ts) := by
  induction ts generalizing r with
  | nil =>
    have hexpected : r.unplaced.stage.expected = r.stage.expected := r.stage.expected_unplaced
    rw [List.map_nil]
    by_cases hmem : .eof ∈ r.stage.expected
    · have hmem' : .eof ∈ r.unplaced.stage.expected := by rwa [hexpected]
      rw [result_nil_of_mem hmem, result_nil_of_mem hmem', unplaced, SourceFile.ofItems_unplaced]
      rfl
    · have hmem' : .eof ∉ r.unplaced.stage.expected := by rwa [hexpected]
      rw [result_nil_of_notMem hmem, result_nil_of_notMem hmem', unplaced,
        Stage.unexpected_unplaced]
      rfl
  | cons t ts ih =>
    obtain ⟨stage, items⟩ := r
    rw [List.map_cons, unplaced]
    rcases stage.step_cases t with ⟨next, hgo⟩ | ⟨outcome, hfinish⟩ | hrefuse
    · rw [result_cons_of_ok (read_of_goesOn hgo), ← ih ⟨next, items⟩,
        result_cons_of_ok (read_of_goesOn hgo.unplaced)]
      rfl
    · cases outcome with
      | ok item =>
        have hdeclared : item.unplaced.isDeclaration = item.isDeclaration := by
          cases item <;> rfl
        rw [result_cons_of_ok (read_of_finishes hfinish), ← ih,
          result_cons_of_ok (read_of_finishes hfinish.unplaced_item), hdeclared, unplaced,
          List.map_append]
        rfl
      | error g =>
        rw [result_cons_of_error (read_of_overflow hfinish),
          result_cons_of_error (read_of_overflow hfinish.unplaced_error)]
        rfl
    · rw [result_cons_of_error (read_of_refuse hrefuse),
        result_cons_of_error (read_of_refuse (Stage.step_unplaced_of_refuse hrefuse)),
        Stage.unexpected_unplaced]
      rfl

theorem Token.eofAfter_unplaced (last : Token) :
    last.unplaced.eofAfter = last.eofAfter.unplaced := by
  have hlength : Span.atStart.length = 0 := rfl
  rw [eofAfter, unplaced, hlength, Nat.zero_sub]
  rfl

theorem Feed.eof_behind_unplaced (last : Token) (tokens : List Token) :
    (behind last.unplaced ((tokens.map Token.unplaced).map .token)).eof =
      (behind last (tokens.map .token)).eof.unplaced := by
  induction tokens generalizing last with
  | nil => exact last.eofAfter_unplaced
  | cons t tokens ih =>
    have hkind : t.unplaced.kind = t.kind := rfl
    simp only [List.map_cons, behind, hkind]
    split
    · rfl
    · exact ih t

theorem beforeEof_unplaced (tokens : List Token) :
    beforeEof (tokens.map Token.unplaced) = (beforeEof tokens).map Token.unplaced := by
  rw [beforeEof, List.takeWhile_map]
  rfl

theorem parseTokens_unplaced (tokens : List Token) :
    parseTokens (tokens.map Token.unplaced) = unplacedOutcome (parseTokens tokens) := by
  have heof : (Feed.ofTokens (tokens.map Token.unplaced)).eof =
      (Feed.ofTokens tokens).eof.unplaced := Feed.eof_behind_unplaced .atStart tokens
  rw [parseTokens_eq_reader, parseTokens_eq_reader, heof, beforeEof_unplaced,
    ← Reader.result_unplaced]
  rfl

/-- What a row of tokens comes to depends, spans apart, on the kinds of the tokens alone. -/
theorem parseTokens_unplaced_of_kinds {as bs : List Token}
    (h : as.map Token.kind = bs.map Token.kind) :
    unplacedOutcome (parseTokens as) = unplacedOutcome (parseTokens bs) := by
  have hunplaced : (Token.mk · Span.atStart) ∘ Token.kind = Token.unplaced := rfl
  have hmap : as.map Token.unplaced = bs.map Token.unplaced := by
    rw [← hunplaced, ← List.map_map, h, List.map_map]
  rw [← parseTokens_unplaced, ← parseTokens_unplaced, hmap]

end DeclLang
