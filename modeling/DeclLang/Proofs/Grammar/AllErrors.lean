import DeclLang.Proofs.Grammar.Agreement

/-!
# All errors of a source text

What giving all errors gives, family by family.  `errorList` is the list of errors that a reading
gave, empty where it gave something else.

The errors are sorted after they were noticed, and sorting is stable, so it does not disturb those
of one family if they were noticed in order (`SyntaxError.filter_mergeSort`).  Both families are:
the lexical errors are those of the lexemes in their order (`Feed.filter_isLexical_errorList`), and
what remains are the failures of the passes (`Feed.filter_isGrammar_errorList`), none of which
begins before the one of an earlier pass (`passes_pairwise_failure`).
-/

namespace DeclLang

/-- The errors that were given, if any were. -/
def errorList {ε α : Type} : Except (List ε) α → List ε
  | .ok _ => []
  | .error errors => errors

/-- Whether a token is in question. -/
def SyntaxError.isGrammar (e : SyntaxError) : Bool := !e.isLexical

/-! ## Sorting errors of one family -/

/-- Errors that were noticed in order keep that order among themselves. -/
theorem SyntaxError.filter_mergeSort {p : SyntaxError → Bool} {errors : List SyntaxError}
    (h : (errors.filter p).Pairwise fun a b => comesBefore a b) :
    (errors.mergeSort comesBefore).filter p = errors.filter p := by
  have hsublist : (errors.filter p).Sublist ((errors.mergeSort comesBefore).filter p) := by
    have hkept := (List.sublist_mergeSort comesBefore_trans comesBefore_total h
      List.filter_sublist).filter p
    rwa [List.filter_filter, funext fun e => Bool.and_self (p e)] at hkept
  have hperm := (List.mergeSort_perm errors comesBefore).filter p
  exact (hsublist.eq_of_length hperm.length_eq.symm).symm

theorem Feed.errorList_parseAll (feed : Feed) :
    errorList feed.parseAll = feed.errors.mergeSort SyntaxError.comesBefore := by
  unfold parseAll
  split
  · next h => simp [errorList, h]
  · rfl

/-- No errors are given exactly when a tree is. -/
theorem Feed.errorList_eq_nil_iff {feed : Feed} :
    errorList feed.parseAll = [] ↔ ∃ file, feed.parseAll = .ok file := by
  constructor
  · intro h
    have hperm := List.mergeSort_perm feed.errors SyntaxError.comesBefore
    rw [← errorList_parseAll, h] at hperm
    exact ⟨feed.sourceFile, parseAll_eq_ok_iff_errors.2 ⟨hperm.symm.eq_nil, rfl⟩⟩
  · rintro ⟨file, h⟩
    rw [h, errorList]

theorem Feed.pairwise_errorList (feed : Feed) :
    (errorList feed.parseAll).Pairwise fun a b => a.span.start ≤ b.span.start := by
  rw [errorList_parseAll]
  have hsorted := List.pairwise_mergeSort SyntaxError.comesBefore_trans
    SyntaxError.comesBefore_total feed.errors
  exact hsorted.imp fun h => by simpa [SyntaxError.comesBefore] using h

/-! ## Lexical errors -/

namespace Pass

theorem isLexical_of_mem_lexicalErrors {entries : List Feed.Entry} {e : SyntaxError}
    (h : e ∈ lexicalErrors entries) : e.isLexical = true := by
  obtain ⟨error, rfl⟩ := exists_of_mem_lexicalErrors h
  rfl

theorem isLexical_of_mem_failure {p : Pass} {e : SyntaxError} (h : e ∈ p.failure) :
    e.isLexical = false := by
  cases hcase : p.outcome with
  | ok item =>
    rw [failure_of_ok hcase] at h
    cases h
  | error g =>
    rw [List.mem_singleton.1 (failure_subset hcase h)]
    rfl

theorem filter_isLexical_errors (p : Pass) :
    p.errors.filter SyntaxError.isLexical = lexicalErrors p.entries := by
  have hfailure : p.failure.filter SyntaxError.isLexical = [] := by
    rw [List.filter_eq_nil_iff]
    intro e he
    simp [isLexical_of_mem_failure he]
  have hkept (entries : List Feed.Entry) :
      (lexicalErrors entries).filter SyntaxError.isLexical = lexicalErrors entries := by
    rw [List.filter_eq_self]
    exact fun e he => isLexical_of_mem_lexicalErrors he
  rw [errors, List.filter_append, List.filter_append, hfailure, hkept, hkept, List.append_nil,
    lexicalErrors, lexicalErrors, ← List.flatMap_append]
  rfl

theorem filter_isGrammar_errors (p : Pass) : p.errors.filter SyntaxError.isGrammar = p.failure := by
  have hfailure : p.failure.filter SyntaxError.isGrammar = p.failure := by
    rw [List.filter_eq_self]
    intro e he
    simp [SyntaxError.isGrammar, isLexical_of_mem_failure he]
  have hdropped (entries : List Feed.Entry) :
      (lexicalErrors entries).filter SyntaxError.isGrammar = [] := by
    rw [List.filter_eq_nil_iff]
    intro e he
    simp [SyntaxError.isGrammar, isLexical_of_mem_lexicalErrors he]
  rw [errors, List.filter_append, List.filter_append, hfailure, hdropped, hdropped,
    List.nil_append, List.append_nil]

end Pass

namespace Feed

theorem filterMap_lexemes (feed : Feed) :
    feed.lexemes.filterMap Lexeme.syntaxError? =
      feed.leading.map .lexical ++ Pass.lexicalErrors feed.entries := by
  rw [lexemes, row, List.filterMap_append, List.filterMap_append, Lexeme.filterMap_syntaxError?,
    ← Pass.lexicalErrors_eq_filterMap, List.filterMap_cons_none rfl, List.filterMap_nil,
    List.append_nil]

/-- Every lexical error is noticed once, in the order of the lexemes. -/
theorem filter_isLexical_errors (feed : Feed) :
    feed.errors.filter SyntaxError.isLexical = feed.lexemes.filterMap Lexeme.syntaxError? := by
  have hleading : (feed.leading.map SyntaxError.lexical).filter SyntaxError.isLexical =
      feed.leading.map .lexical := by
    rw [List.filter_eq_self, List.forall_mem_map]
    exact fun _ _ => rfl
  have hpasses : feed.passes.flatMap (fun p => Pass.lexicalErrors p.entries) =
      Pass.lexicalErrors feed.entries := by
    unfold Pass.lexicalErrors
    rw [← List.flatMap_assoc, passes, passes_flatMap_entries]
  rw [errors, List.filter_append, hleading, List.filter_flatMap, filterMap_lexemes, ← hpasses]
  exact congrArg _ (List.flatMap_congr fun p _ => p.filter_isLexical_errors)

/-- What is noticed beside the lexical errors are the failures of the passes. -/
theorem filter_isGrammar_errors (feed : Feed) :
    feed.errors.filter SyntaxError.isGrammar = feed.passes.flatMap Pass.failure := by
  have hleading : (feed.leading.map SyntaxError.lexical).filter SyntaxError.isGrammar = [] := by
    rw [List.filter_eq_nil_iff, List.forall_mem_map]
    exact fun _ _ => Bool.false_ne_true
  rw [errors, List.filter_append, hleading, List.nil_append, List.filter_flatMap]
  exact List.flatMap_congr fun p _ => p.filter_isGrammar_errors

end Feed

/-! ## The order of failures -/

/-- The failure of a pass begins no later than any error in the tokens that its attempt left. -/
theorem Pass.failure_start_le {eof : Token} {stage : Stage} {entries : List Feed.Entry}
    {e other : SyntaxError} (h : e ∈ (ofAttempt (attempt eof stage entries)).1.failure)
    (hother : other.LiesIn (Feed.row eof (attempt eof stage entries).rest))
    (horder : Lexeme.InOrder (Feed.row eof entries)) : e.span.start ≤ other.span.start := by
  obtain ⟨-, hread, -⟩ := ofAttempt_fields (attempt eof stage entries)
  rw [← attempt_append eof stage entries, Feed.row_append, ← hread] at horder
  rcases outcome_cases eof stage entries with
    hunexpected | ⟨init, digits, span, errors, hinit, houtcome⟩
  · cases hcase : (ofAttempt (attempt eof stage entries)).1.outcome with
    | ok item =>
      rw [failure_of_ok hcase] at h
      cases h
    | error g =>
      obtain ⟨expected, rfl⟩ := hunexpected g hcase
      obtain rfl := List.mem_singleton.1 (failure_subset hcase h)
      obtain ⟨more, hrow⟩ := Feed.row_eq_cons eof (attempt eof stage entries).rest
      rw [hrow] at horder hother
      exact hother.start_le rfl (List.pairwise_append.1 horder).2.1
  · rw [failure_of_overflow houtcome, List.mem_singleton] at h
    subst h
    have hlies : (SyntaxError.grammar (.integerOverflow digits span)).LiesIn
        ((ofAttempt (attempt eof stage entries)).1.read.flatMap Feed.Entry.lexemes) :=
      ⟨.token ⟨.int digits, span⟩, by simp [hinit, Feed.Entry.lexemes], rfl⟩
    exact Nat.le_of_lt (hlies.start_lt hother horder)

theorem Pass.pairwise_failure (p : Pass) :
    p.failure.Pairwise fun a b => SyntaxError.comesBefore a b := by
  unfold failure
  split
  · split
    · exact .nil
    · exact List.pairwise_singleton _ _
  · exact .nil

theorem passes_pairwise_failure {eof : Token} {declared : Bool} {entries : List Feed.Entry}
    (horder : Lexeme.InOrder (Feed.row eof entries)) :
    ((passes eof declared entries).flatMap Pass.failure).Pairwise
      fun a b => SyntaxError.comesBefore a b := by
  induction declared, entries using passes.induct eof with
  | case1 => simp
  | case2 declared entry rest step ih =>
    have happend : step.1.entries ++ step.2 = entry :: rest := by
      rw [Pass.ofAttempt_append, attempt_append]
    have hlater : Lexeme.InOrder (Feed.row eof step.2) := by
      rw [← happend, Feed.row_append] at horder
      exact (List.pairwise_append.1 horder).2.1
    rw [passes, List.flatMap_cons, List.pairwise_append]
    refine ⟨Pass.pairwise_failure _, ih hlater, ?_⟩
    intro e he other hother
    -- A failure of a later pass is an error behind the tokens of this one.
    have hother :
        other ∈ (passes eof (declared || step.1.declares) step.2).flatMap Pass.errors := by
      obtain ⟨p, hp, hfailure⟩ := List.mem_flatMap.1 hother
      refine List.mem_flatMap.2 ⟨p, hp, ?_⟩
      exact List.mem_append_left _ (List.mem_append_right _ hfailure)
    have hlies := laterErrors_liesIn _ other (List.mem_append_right _ hother)
    simpa [SyntaxError.comesBefore] using Pass.failure_start_le he hlies horder

/-! ## What is given -/

namespace Feed

variable {feed : Feed}

theorem inOrder_row (h : Lexeme.InOrder feed.lexemes) :
    Lexeme.InOrder (row feed.eof feed.entries) :=
  (List.pairwise_append.1 h).2.1

/-- The lexical errors that are given are those of the lexemes, each once and in order. -/
theorem filter_isLexical_errorList (h : Lexeme.InOrder feed.lexemes) :
    (errorList feed.parseAll).filter SyntaxError.isLexical =
      feed.lexemes.filterMap Lexeme.syntaxError? := by
  rw [errorList_parseAll, SyntaxError.filter_mergeSort, filter_isLexical_errors]
  rw [filter_isLexical_errors]
  refine (Lexeme.pairwise_syntaxError? h).imp ?_
  intro a b hlt
  simpa [SyntaxError.comesBefore] using Nat.le_of_lt hlt

/-- The other errors that are given are the failures of the passes, in the order of the passes. -/
theorem filter_isGrammar_errorList (h : Lexeme.InOrder feed.lexemes) :
    (errorList feed.parseAll).filter SyntaxError.isGrammar =
      feed.passes.flatMap Pass.failure := by
  rw [errorList_parseAll, SyntaxError.filter_mergeSort, filter_isGrammar_errors]
  rw [filter_isGrammar_errors]
  exact passes_pairwise_failure (inOrder_row h)

/-- Without lexical errors there is nothing but the failures of the passes. -/
theorem errorList_eq_failures (h : Lexeme.InOrder feed.lexemes)
    (hnone : feed.lexemes.filterMap Lexeme.syntaxError? = []) :
    errorList feed.parseAll = feed.passes.flatMap Pass.failure := by
  rw [← filter_isGrammar_errorList h, eq_comm, List.filter_eq_self]
  intro e he
  rw [← filter_isLexical_errorList h, List.filter_eq_nil_iff] at hnone
  simpa [SyntaxError.isGrammar] using hnone e he

end Feed

end DeclLang
