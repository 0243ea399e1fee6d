import DeclLang.Proofs.Grammar.AllErrors
import Mathlib.Data.List.Infix

/-!
# Errors that repeat a lexical error

What lexical errors do to the other errors of a source text.  `Feed.bare` is a feed without its
lexical errors, and the passes over it are the same passes (`passes_bare`): what an attempt makes of
its tokens does not depend on the errors between them.

So a lexical error can only keep a failure from being given.  `GrammarError.Repeats` says of an
error, without reference to passes, that it does nothing but repeat a lexical error, and
`passes_repeats_iff` that exactly these are left out.  `parseAll_error_families` puts it together
for source texts.
-/

namespace DeclLang

/-! ## Feeds without their errors -/

/-- The token of an entry alone. -/
def Feed.Entry.bare (entry : Entry) : Entry := ⟨entry.token, []⟩

/-- An attempt without the lexical errors in it. -/
def Attempt.bare (a : Attempt) : Attempt :=
  ⟨a.outcome, a.read.map .bare, a.rest.map .bare⟩

/-- A pass without the lexical errors in it. -/
def Pass.bare (p : Pass) : Pass := ⟨p.outcome, p.read.map .bare, p.skipped.map .bare⟩

/-- The tokens of a feed alone. -/
def Feed.bare (feed : Feed) : Feed := ⟨[], feed.entries.map .bare, feed.eof⟩

theorem attempt_bare (eof : Token) (stage : Stage) (entries : List Feed.Entry) :
    attempt eof stage (entries.map .bare) = (attempt eof stage entries).bare := by
  induction entries generalizing stage with
  | nil => rfl
  | cons entry rest ih =>
    rw [List.map_cons]
    rcases stage.step_cases entry.token with ⟨next, hgo⟩ | ⟨outcome, hfinish⟩ | hrefuse
    · have hbare : stage.GoesOn entry.bare.token next := hgo
      rw [attempt_of_goesOn hgo, attempt_of_goesOn hbare, ih]
      rfl
    · have hbare : stage.Finishes entry.bare.token outcome := hfinish
      rw [attempt_of_finishes hfinish, attempt_of_finishes hbare]
      rfl
    · have hbare : stage.step entry.bare.token = .refuse := hrefuse
      rw [attempt_of_refuse hrefuse, attempt_of_refuse hbare]
      rfl

theorem Pass.ofAttempt_bare (a : Attempt) :
    ofAttempt a.bare = ((ofAttempt a).1.bare, (ofAttempt a).2.map .bare) := by
  obtain ⟨outcome, read, rest⟩ := a
  cases outcome with
  | ok item => rfl
  | error g =>
    cases read with
    | nil =>
      cases rest with
      | nil => rfl
      | cons entry rest =>
        simp [ofAttempt, bare, Attempt.bare, List.takeWhile_map, List.dropWhile_map,
          Function.comp_def, beginsItem, Feed.Entry.bare]
    | cons entry read =>
      simp [ofAttempt, bare, Attempt.bare, List.takeWhile_map, List.dropWhile_map,
        Function.comp_def, beginsItem, Feed.Entry.bare]

/-- Lexical errors have no influence on what the passes are. -/
theorem passes_bare (eof : Token) (declared : Bool) (entries : List Feed.Entry) :
    passes eof declared (entries.map .bare) = (passes eof declared entries).map .bare := by
  induction declared, entries using passes.induct eof with
  | case1 => simp
  | case2 declared entry rest step ih =>
    have hstep : Pass.ofAttempt (attempt eof (.atItem declared) ((entry :: rest).map .bare)) =
        (step.1.bare, step.2.map .bare) := by
      rw [attempt_bare, Pass.ofAttempt_bare]
    rw [List.map_cons] at hstep ⊢
    rw [passes, passes, hstep, List.map_cons, ← ih]
    rfl

namespace Feed

/-- The feed of the tokens among lexemes is the feed of the lexemes without its errors. -/
theorem behind_filterMap_token? (last : Token) (lexemes : List Lexeme) :
    behind last ((lexemes.filterMap Lexeme.token?).map .token) = (behind last lexemes).bare := by
  induction lexemes generalizing last with
  | nil => rfl
  | cons lexeme lexemes ih =>
    cases lexeme with
    | error e => exact ih last
    | token t =>
      have hfirst : (Lexeme.token t :: lexemes).filterMap Lexeme.token? =
        t :: lexemes.filterMap Lexeme.token? := rfl
      rw [hfirst, List.map_cons, behind, behind]
      split
      · rfl
      · rw [ih t]
        rfl

theorem ofTokens_tokens (source : String) : ofTokens (tokens source) = (ofString source).bare :=
  behind_filterMap_token? _ _

theorem lexicalErrors_bare (entries : List Entry) :
    Pass.lexicalErrors (entries.map .bare) = [] := by
  rw [Pass.lexicalErrors_eq_nil_iff, List.forall_mem_map]
  exact fun _ _ => rfl

theorem filterMap_lexemes_bare (feed : Feed) :
    feed.bare.lexemes.filterMap Lexeme.syntaxError? = [] := by
  rw [filterMap_lexemes]
  exact lexicalErrors_bare feed.entries

theorem row_bare_sublist (eof : Token) (entries : List Entry) :
    (row eof (entries.map .bare)).Sublist (row eof entries) := by
  induction entries with
  | nil => exact List.Sublist.refl _
  | cons entry entries ih =>
    rw [List.map_cons, row_cons, row_cons]
    exact (List.sublist_append_of_sublist_right ih).cons_cons _

theorem inOrder_bare {feed : Feed} (h : Lexeme.InOrder feed.lexemes) :
    Lexeme.InOrder feed.bare.lexemes :=
  h.sublist (List.sublist_append_of_sublist_right (row_bare_sublist feed.eof feed.entries))

end Feed

/-! ## Failures -/

namespace Pass

/-- The failure of a pass, if it had one, whether or not it is given. -/
def rejection (p : Pass) : List GrammarError :=
  match p.outcome with
  | .error g => [g]
  | .ok _ => []

theorem rejection_of_error {p : Pass} {g : GrammarError} (h : p.outcome = .error g) :
    p.rejection = [g] := by
  rw [rejection, h]

theorem rejection_of_ok {p : Pass} {item : Item} (h : p.outcome = .ok item) :
    p.rejection = [] := by
  rw [rejection, h]

/-- Without lexical errors every failure is given. -/
theorem failure_bare (p : Pass) : p.bare.failure = p.rejection.map .grammar := by
  cases houtcome : p.outcome with
  | ok item =>
    have hbare : p.bare.outcome = .ok item := houtcome
    rw [failure_of_ok hbare, rejection_of_ok houtcome]
    rfl
  | error g =>
    have hbare : p.bare.outcome = .error g := houtcome
    rw [failure_of_lexicalErrors_eq_nil hbare (Feed.lexicalErrors_bare p.read),
      rejection_of_error houtcome]
    rfl

end Pass

namespace Feed

/-- The failures of the passes over a feed, in order. -/
def rejections (feed : Feed) : List GrammarError := feed.passes.flatMap Pass.rejection

/-- Without its lexical errors a feed gives the failures of its passes and nothing else. -/
theorem errorList_bare {feed : Feed} (h : Lexeme.InOrder feed.lexemes) :
    errorList feed.bare.parseAll = feed.rejections.map .grammar := by
  have hpasses : feed.bare.passes = feed.passes.map .bare :=
    passes_bare feed.eof false feed.entries
  rw [errorList_eq_failures (inOrder_bare h) (filterMap_lexemes_bare feed), hpasses,
    List.flatMap_map, rejections, List.map_flatMap]
  exact List.flatMap_congr fun p _ => p.failure_bare

end Feed

/-! ## Failures behind lexical errors -/

/-- `g.Repeats lexemes`: something else than an item was expected, so an item had been begun, and
what was found instead of its next token has a lexical error right before it. -/
def GrammarError.Repeats (lexemes : List Lexeme) : GrammarError → Prop
  | .unexpectedToken expected found =>
    (∀ declared, expected ≠ (Stage.atItem declared).expected) ∧
      ∃ error, [.error error, .token found] <:+: lexemes
  | .integerOverflow _ _ => False

/-- Where all lexemes differ, it is the one before a token that has to be a lexical error. -/
theorem Lexeme.exists_error_infix_iff {before after : List Lexeme} {found : Token}
    (h : (before ++ .token found :: after).Nodup) :
    (∃ error, [.error error, .token found] <:+: before ++ .token found :: after) ↔
      ∃ error, before.getLast? = some (.error error) := by
  constructor
  · rintro ⟨error, first, later, heq⟩
    rw [List.perm_middle.nodup_iff, List.nodup_cons, List.mem_append, not_or] at h
    have hsplit : before ++ .token found :: after =
        (first ++ [.error error]) ++ .token found :: later := by
      simpa using heq.symm
    obtain ⟨rfl, -⟩ := (List.append_cons_inj_of_notMem h.1.1 h.1.2).1 hsplit
    exact ⟨error, by simp⟩
  · rintro ⟨error, hlast⟩
    obtain ⟨init, rfl⟩ := List.getLast?_eq_some_iff.1 hlast
    exact ⟨error, init, after, by simp⟩

theorem Feed.Entry.getLast?_lexemes_iff {entry : Entry} :
    (∃ error, entry.lexemes.getLast? = some (.error error)) ↔ entry.errors.isEmpty = false := by
  obtain ⟨t, errors⟩ := entry
  rcases List.eq_nil_or_concat' errors with rfl | ⟨init, error, rfl⟩
  · simp [lexemes]
  · simp [lexemes, List.getLast?_cons]

namespace Pass

theorem repeatsLexicalError_of_overflow {p : Pass} {digits : String} {span : Span}
    (h : p.outcome = .error (.integerOverflow digits span)) : p.repeatsLexicalError = false := by
  simp [repeatsLexicalError, h]

theorem repeatsLexicalError_of_read_eq_nil {p : Pass} (h : p.read = []) :
    p.repeatsLexicalError = false := by
  unfold repeatsLexicalError
  rw [h]
  split
  · next hlast => cases hlast
  · rfl

theorem repeatsLexicalError_of_unexpected {p : Pass} {expected : List TokenClass} {found : Token}
    {init : List Feed.Entry} {entry : Feed.Entry}
    (h : p.outcome = .error (.unexpectedToken expected found)) (hread : p.read = init ++ [entry]) :
    p.repeatsLexicalError = !entry.errors.isEmpty := by
  simp [repeatsLexicalError, h, hread]

end Pass

/-- The failure of an attempt is left out exactly when it repeats a lexical error. -/
theorem attempt_repeats_iff {eof : Token} {declared : Bool} {before : List Lexeme}
    {entries : List Feed.Entry} {p : Pass} {g : GrammarError}
    (horder : Lexeme.InOrder (before ++ Feed.row eof entries))
    (houtcome : p.outcome = (attempt eof (.atItem declared) entries).outcome)
    (hread : p.read = (attempt eof (.atItem declared) entries).read) (h : p.outcome = .error g) :
    p.repeatsLexicalError = true ↔ g.Repeats (before ++ Feed.row eof entries) := by
  rcases attempt_cases eof (.atItem declared) entries with
    ⟨init, last, entry, rest, outcome, -, -, hfinish, hattempt⟩ |
    ⟨read, last, rest, rfl, hreads, -, hattempt⟩
  · rw [hattempt] at houtcome
    obtain rfl : outcome = .error g := houtcome.symm.trans h
    obtain ⟨digits, -, rfl⟩ := hfinish.eq_overflow
    rw [Pass.repeatsLexicalError_of_overflow h]
    exact iff_of_false Bool.false_ne_true id
  · rw [hattempt] at houtcome hread
    rw [houtcome] at h
    cases h
    rcases List.eq_nil_or_concat' read with rfl | ⟨init, entry, rfl⟩
    · -- No item had been begun, so nothing is left out, whatever is before the token.
      cases hreads with
      | nil =>
        rw [Pass.repeatsLexicalError_of_read_eq_nil hread]
        exact iff_of_false Bool.false_ne_true fun hrepeats =>
          hrepeats.1 declared rfl
    · have hinside : last.IsInside := hreads.isInside_of_ne_nil (by simp)
      obtain ⟨more, hrow⟩ := Feed.row_eq_cons eof rest
      have hlexemes : before ++ Feed.row eof (init ++ [entry] ++ rest) =
          (before ++ init.flatMap Feed.Entry.lexemes ++ entry.lexemes) ++
            .token (Feed.front eof rest) :: more := by
        rw [Feed.row_append, hrow]
        simp
      have hlast : (before ++ init.flatMap Feed.Entry.lexemes ++ entry.lexemes).getLast? =
          entry.lexemes.getLast? := by
        simp [Feed.Entry.lexemes, List.getLast?_append, List.getLast?_cons]
      rw [hlexemes] at horder ⊢
      rw [Pass.repeatsLexicalError_of_unexpected houtcome hread, Bool.not_eq_true',
        ← Feed.Entry.getLast?_lexemes_iff, ← hlast,
        ← Lexeme.exists_error_infix_iff (Lexeme.InOrder.nodup horder)]
      exact ⟨fun hsub => ⟨hinside.expected_ne, hsub⟩, fun hrepeats => hrepeats.2⟩

/-- The passes leave out the failures that repeat a lexical error and no others. -/
theorem passes_repeats_iff {eof : Token} {declared : Bool} {entries : List Feed.Entry} :
    ∀ before, Lexeme.InOrder (before ++ Feed.row eof entries) →
      ∀ p ∈ passes eof declared entries, ∀ g, p.outcome = .error g →
        (p.repeatsLexicalError = true ↔ g.Repeats (before ++ Feed.row eof entries)) := by
  induction declared, entries using passes.induct eof with
  | case1 => simp
  | case2 declared entry rest step ih =>
    intro before horder
    have hrow : before ++ Feed.row eof (entry :: rest) =
        (before ++ step.1.entries.flatMap Feed.Entry.lexemes) ++ Feed.row eof step.2 := by
      have happend : step.1.entries ++ step.2 = entry :: rest := by
        rw [Pass.ofAttempt_append, attempt_append]
      rw [← happend, Feed.row_append, List.append_assoc]
    obtain ⟨houtcome, hread, -⟩ :=
      Pass.ofAttempt_fields (attempt eof (.atItem declared) (entry :: rest))
    rw [passes, List.forall_mem_cons]
    refine ⟨fun g hg => attempt_repeats_iff horder houtcome hread hg, ?_⟩
    rw [hrow] at horder ⊢
    exact ih _ horder

/-! ## Source texts -/

instance decidableRepeats (lexemes : List Lexeme) :
    DecidablePred (GrammarError.Repeats lexemes)
  | .integerOverflow _ _ => .isFalse id
  | .unexpectedToken expected found =>
    decidable_of_iff ((∀ declared, expected ≠ (Stage.atItem declared).expected) ∧
        ∃ error ∈ lexemes.filterMap Lexeme.error?,
          [.error error, .token found] <:+: lexemes) <| by
      refine and_congr_right fun _ => exists_congr fun error => and_iff_right_of_imp ?_
      intro hsub
      exact List.mem_filterMap.2 ⟨_, hsub.subset List.mem_cons_self, rfl⟩

theorem Pass.failure_eq_filter {p : Pass} {lexemes : List Lexeme}
    (h : ∀ g, p.outcome = .error g → (p.repeatsLexicalError = true ↔ g.Repeats lexemes)) :
    p.failure = (p.rejection.filter fun g => ¬ g.Repeats lexemes).map .grammar := by
  cases houtcome : p.outcome with
  | ok item =>
    rw [failure_of_ok houtcome, rejection_of_ok houtcome]
    rfl
  | error g =>
    have hrepeats := h g houtcome
    rw [rejection_of_error houtcome, failure, houtcome]
    by_cases hg : g.Repeats lexemes
    · simp [hrepeats.2 hg, hg]
    · simp [hrepeats, hg]

theorem Feed.flatMap_failure {feed : Feed} (h : Lexeme.InOrder feed.lexemes) :
    feed.passes.flatMap Pass.failure =
      (feed.rejections.filter fun g => ¬ g.Repeats feed.lexemes).map .grammar := by
  rw [rejections, List.filter_flatMap, List.map_flatMap]
  refine List.flatMap_congr fun p hp => Pass.failure_eq_filter ?_
  exact passes_repeats_iff _ h p hp

/-- What lexical errors do to the errors of a text.  The lexical errors are all given, each once and
in order.  The others are those of the tokens alone, in the same order, less those that repeat a
lexical error.  All of them are sorted by where they begin. -/
theorem parseAll_error_families (source : String) :
    (errorList (parseAll source)).filter SyntaxError.isLexical =
      (lexicalErrors source).map .lexical ∧
    lexicalErrors source = errorList (lexAll source) ∧
    (∃ found : List GrammarError,
      errorList (Feed.ofTokens (tokens source)).parseAll = found.map .grammar ∧
      (errorList (parseAll source)).filter SyntaxError.isGrammar =
        (found.filter fun g => ¬ g.Repeats (Lexeme.ofString source)).map .grammar) ∧
    (errorList (parseAll source)).Pairwise fun a b => a.span.start ≤ b.span.start := by
  have horder := Lexeme.inOrder_ofString source
  rw [← Feed.lexemes_ofString] at horder
  refine ⟨?_, ?_, ⟨(Feed.ofString source).rejections, ?_, ?_⟩, Feed.pairwise_errorList _⟩
  · rw [parseAll, Feed.filter_isLexical_errorList horder, Feed.lexemes_ofString, lexicalErrors,
      List.map_filterMap]
    rfl
  · unfold lexAll
    split
    · next h => rw [h, errorList]
    · rfl
  · rw [Feed.ofTokens_tokens, Feed.errorList_bare horder]
  · rw [parseAll, Feed.filter_isGrammar_errorList horder, Feed.flatMap_failure horder,
      Feed.lexemes_ofString]

end DeclLang
