import DeclLang.Proofs.Grammar.ErrorOrder

/-!
# The first error of a source text

Which error stopping at the first problem reports, and which error is the first of all.

`Reports entries first reported` lists what can be reported where `first` is the first error.  The
two differ in one case: an integer that is out of range finishes its item, and the lexical errors
behind the token are noticed before the item is judged.  Then it is the lexical error that is
reported, although it comes later.

`passes_reports` follows the passes up to the first with a problem, and `parse_error_eq_first_iff`
says what comes of it for source texts.
-/

namespace DeclLang

/-! ## What is reported -/

/-- `Reports entries first reported`: where `first` is the first error, stopping at the first
problem reports `reported`.  Whether the two are the same depends on what follows an integer out of
range. -/
inductive Reports (entries : List Feed.Entry) : SyntaxError → SyntaxError → Prop where
  | lexical {error : LexicalError} : Reports entries (.lexical error) (.lexical error)
  | unexpected {expected : List TokenClass} {found : Token} :
      Reports entries (.grammar (.unexpectedToken expected found))
        (.grammar (.unexpectedToken expected found))
  | overflow {digits : String} {span : Span} (h : ⟨⟨.int digits, span⟩, []⟩ ∈ entries) :
      Reports entries (.grammar (.integerOverflow digits span))
        (.grammar (.integerOverflow digits span))
  | hidden {digits : String} {span : Span} {error : LexicalError} {errors : List LexicalError}
      (h : ⟨⟨.int digits, span⟩, error :: errors⟩ ∈ entries) :
      Reports entries (.grammar (.integerOverflow digits span)) (.lexical error)

theorem Reports.mono {entries more : List Feed.Entry} {first e : SyntaxError}
    (h : Reports entries first e) (hsubset : entries ⊆ more) : Reports more first e := by
  cases h with
  | lexical => exact .lexical
  | unexpected => exact .unexpected
  | overflow h => exact .overflow (hsubset h)
  | hidden h => exact .hidden (hsubset h)

theorem Pass.problem?_eq_some {p : Pass} {e : SyntaxError} (h : p.problem? = some e) :
    (∃ more, lexicalErrors p.read = e :: more) ∨
      lexicalErrors p.read = [] ∧ ∃ g, p.outcome = .error g ∧ e = .grammar g := by
  unfold problem? at h
  split at h
  · next hread =>
    cases h
    exact .inl ⟨_, hread⟩
  · next g hread houtcome =>
    cases h
    exact .inr ⟨hread, g, houtcome, rfl⟩
  · cases h

theorem Reports.of_lexicalErrors {entries read : List Feed.Entry} {e : SyntaxError}
    {more : List SyntaxError} (h : Pass.lexicalErrors read = e :: more) : Reports entries e e := by
  have hmem : e ∈ Pass.lexicalErrors read := by rw [h]; exact List.mem_cons_self
  obtain ⟨error, rfl⟩ := Pass.exists_of_mem_lexicalErrors hmem
  exact .lexical

/-- Where nothing before an integer out of range is in error, what is behind it decides. -/
theorem Pass.reports_of_overflow {p : Pass} {digits : String} {span : Span}
    {errors : List LexicalError} {e : SyntaxError}
    (hmem : ⟨⟨.int digits, span⟩, errors⟩ ∈ p.read)
    (hread : lexicalErrors p.read = errors.map .lexical)
    (houtcome : p.outcome = .error (.integerOverflow digits span)) (h : p.problem? = some e) :
    Reports p.read (.grammar (.integerOverflow digits span)) e := by
  rcases problem?_eq_some h with ⟨more, hfirst⟩ | ⟨hnone, g, hg, rfl⟩
  · rw [hread] at hfirst
    obtain ⟨error, errors, rfl, rfl, -⟩ := List.map_eq_cons_iff.1 hfirst
    exact .hidden hmem
  · rw [hread] at hnone
    obtain rfl := List.map_eq_nil_iff.1 hnone
    rw [houtcome] at hg
    cases hg
    exact .overflow hmem

/-- The errors of a pass that failed at an integer out of range.  A lexical error behind an earlier
token comes before the integer, one behind the integer comes after it; either is reported. -/
theorem Pass.leads_of_overflow {p : Pass} {eof : Token} {init rest : List Feed.Entry}
    {digits : String} {span : Span} {errors : List LexicalError} {e : SyntaxError}
    {later : List SyntaxError} (hread : p.read = init ++ [⟨⟨.int digits, span⟩, errors⟩])
    (houtcome : p.outcome = .error (.integerOverflow digits span)) (h : p.problem? = some e)
    (horder : Lexeme.InOrder (Feed.row eof (p.read ++ rest)))
    (hlater : ∀ other ∈ later, other.LiesIn (Feed.row eof rest)) :
    ∃ first, first.Leads (lexicalErrors p.read ++ p.failure ++ later) ∧
      Reports p.read first e := by
  have hmem : ⟨⟨.int digits, span⟩, errors⟩ ∈ p.read := by simp [hread]
  have hsplit : lexicalErrors p.read = lexicalErrors init ++ errors.map .lexical := by
    rw [hread]
    simp [lexicalErrors]
  have hbehind : ∀ other ∈ later, other.LiesIn
      (.token ⟨.int digits, span⟩ :: (errors.map .error ++ Feed.row eof rest)) := by
    intro other hother
    exact (hlater other hother).append_right.cons _
  rw [hread, List.append_assoc, Feed.row_append, List.singleton_append, Feed.row_cons] at horder
  rw [failure_of_overflow houtcome]
  cases hinit : lexicalErrors init with
  | cons x more =>
    obtain rfl : x = e := by
      rcases problem?_eq_some h with ⟨_, hhead⟩ | ⟨hnone, -⟩
      · rw [hsplit, hinit] at hhead
        exact (List.cons.inj hhead).1
      · rw [hsplit, hinit] at hnone
        cases hnone
    refine ⟨x, ?_, .of_lexicalErrors hinit⟩
    rw [hsplit, List.append_assoc, List.append_assoc]
    refine leads_of_lexicalErrors hinit horder ?_
    intro other hother
    rw [List.mem_append, List.mem_append, List.mem_singleton] at hother
    rcases hother with hother | rfl | hother
    · rw [← Lexeme.filterMap_syntaxError?] at hother
      exact (Lexeme.liesIn_of_mem_filterMap hother).append_left.cons _
    · exact ⟨_, List.mem_cons_self, rfl⟩
    · exact hbehind other hother
  | nil =>
    have hfirst : lexicalErrors p.read = errors.map .lexical := by
      rw [hsplit, hinit, List.nil_append]
    refine ⟨.grammar (.integerOverflow digits span), ?_,
      reports_of_overflow hmem hfirst houtcome h⟩
    rw [hfirst, List.append_assoc, List.singleton_append]
    exact SyntaxError.leads_of_token rfl (List.pairwise_append.1 horder).2.1 hbehind

/-- The errors of a pass that failed, if at all, at the token behind those that it read.  Nothing
that is noticed later begins before the first problem. -/
theorem Pass.leads_of_unexpected {p : Pass} {eof : Token} {rest : List Feed.Entry}
    {e : SyntaxError} {later : List SyntaxError}
    (houtcome : ∀ g, p.outcome = .error g →
      ∃ expected, g = .unexpectedToken expected (Feed.front eof rest))
    (h : p.problem? = some e) (horder : Lexeme.InOrder (Feed.row eof (p.read ++ rest)))
    (hlater : ∀ other ∈ later, other.LiesIn (Feed.row eof rest)) :
    e.Leads (lexicalErrors p.read ++ p.failure ++ later) ∧ Reports p.read e e := by
  rw [Feed.row_append] at horder
  rcases problem?_eq_some h with ⟨more, hread⟩ | ⟨hread, g, hg, rfl⟩
  · refine ⟨?_, .of_lexicalErrors hread⟩
    rw [List.append_assoc]
    refine leads_of_lexicalErrors hread horder ?_
    intro other hother
    rcases List.mem_append.1 hother with hother | hother
    · exact failure_liesIn_row houtcome other hother
    · exact hlater other hother
  · obtain ⟨expected, rfl⟩ := houtcome g hg
    obtain ⟨more, hrow⟩ := Feed.row_eq_cons eof rest
    refine ⟨?_, .unexpected⟩
    rw [hread, failure_of_lexicalErrors_eq_nil hg hread]
    rw [hrow] at horder hlater
    have hfront := (List.pairwise_append.1 horder).2.1
    exact @SyntaxError.leads_of_token _ _ [] more later rfl hfront hlater

/-- The errors that are noticed behind an attempt lie in the tokens that it left. -/
theorem laterErrors_liesIn {eof : Token} {declared : Bool} (a : Attempt) :
    ∀ other ∈ Pass.lexicalErrors (Pass.ofAttempt a).1.skipped ++
        (passes eof declared (Pass.ofAttempt a).2).flatMap Pass.errors,
      other.LiesIn (Feed.row eof a.rest) := by
  obtain ⟨-, -, hskipped⟩ := Pass.ofAttempt_fields a
  intro other hother
  rw [← hskipped, Feed.row_append]
  rcases List.mem_append.1 hother with hother | hother
  · exact (Pass.liesIn_of_mem_lexicalErrors hother).append_left
  · exact (passes_errors_liesIn other hother).append_right

/-- A pass without a problem has no errors. -/
theorem Pass.errors_eq_nil {p : Pass} {item : Item} (houtcome : p.outcome = .ok item)
    (hread : ∀ entry ∈ p.read, entry.errors = []) (hskipped : p.skipped = []) : p.errors = [] := by
  rw [errors, failure_of_ok houtcome, lexicalErrors_eq_nil_iff.2 hread, hskipped]
  rfl

theorem attempt_leads {eof : Token} {stage : Stage} {entries : List Feed.Entry} {e : SyntaxError}
    {later : List SyntaxError}
    (h : (Pass.ofAttempt (attempt eof stage entries)).1.problem? = some e)
    (horder : Lexeme.InOrder (Feed.row eof entries))
    (hlater : ∀ other ∈ later, other.LiesIn (Feed.row eof (attempt eof stage entries).rest)) :
    ∃ first, first.Leads (Pass.lexicalErrors (Pass.ofAttempt (attempt eof stage entries)).1.read ++
        (Pass.ofAttempt (attempt eof stage entries)).1.failure ++ later) ∧
      Reports entries first e := by
  have happend := attempt_append eof stage entries
  obtain ⟨-, hread, -⟩ := Pass.ofAttempt_fields (attempt eof stage entries)
  have hsubset : (Pass.ofAttempt (attempt eof stage entries)).1.read ⊆ entries := by
    have hprefix := List.subset_append_left (attempt eof stage entries).read
      (attempt eof stage entries).rest
    rwa [happend, ← hread] at hprefix
  rw [← happend, ← hread] at horder
  rcases Pass.outcome_cases eof stage entries with
    hunexpected | ⟨init, digits, span, errors, hinit, houtcome⟩
  · obtain ⟨hleads, hreports⟩ := Pass.leads_of_unexpected hunexpected h horder hlater
    exact ⟨e, hleads, hreports.mono hsubset⟩
  · obtain ⟨first, hleads, hreports⟩ := Pass.leads_of_overflow hinit houtcome h horder hlater
    exact ⟨first, hleads, hreports.mono hsubset⟩

/-- The first error of passes, and what stopping at the first problem makes of it. -/
theorem passes_reports {eof : Token} {declared : Bool} {entries : List Feed.Entry} {e : SyntaxError}
    (horder : Lexeme.InOrder (Feed.row eof entries))
    (h : (passes eof declared entries).findSome? Pass.problem? = some e) :
    ∃ first, first.Leads ((passes eof declared entries).flatMap Pass.errors) ∧
      Reports entries first e := by
  induction declared, entries using passes.induct eof with
  | case1 =>
    rw [passes_nil] at h
    cases h
  | case2 declared entry rest step ih =>
    rw [passes, List.findSome?_cons] at h
    rw [passes, List.flatMap_cons]
    split at h
    · next e' hproblem =>
      cases h
      rw [Pass.errors, List.append_assoc]
      exact attempt_leads hproblem horder (laterErrors_liesIn _)
    · next hnone =>
      obtain ⟨item, read, left, hattempt, hread⟩ := attempt_of_problem?_eq_none hnone
      have hstep : step = (⟨.ok item, read, []⟩, left) := congrArg Pass.ofAttempt hattempt
      have happend : read ++ left = entry :: rest := by
        rw [(attempt_eq_ok_iff.1 hattempt).1]
      have herrors : step.1.errors = [] := by
        rw [hstep]
        exact Pass.errors_eq_nil rfl hread rfl
      have hleft : step.2 = left := by rw [hstep]
      rw [← happend, Feed.row_append, ← hleft] at horder
      obtain ⟨first, hleads, hreports⟩ := ih (List.pairwise_append.1 horder).2.1 h
      refine ⟨first, ?_, hreports.mono ?_⟩
      · rw [show (Pass.ofAttempt (attempt eof (.atItem declared) (entry :: rest))).1.errors = []
          from herrors]
        exact hleads
      · rw [← happend, hleft]
        exact List.subset_append_right _ _

/-! ## Source texts -/

namespace Feed

theorem reports {feed : Feed} {e : SyntaxError} (horder : Lexeme.InOrder feed.lexemes)
    (h : feed.problem? = some e) :
    ∃ first, first.Leads feed.errors ∧ Reports feed.entries first e := by
  rw [lexemes] at horder
  unfold problem? at h
  unfold errors
  split at h
  · next error errors hleading =>
    cases h
    have hfirst := Lexeme.filterMap_syntaxError? feed.leading
    rw [hleading] at hfirst horder ⊢
    have hleads := Lexeme.leads_of_filterMap hfirst horder
      (@passes_errors_liesIn feed.eof false feed.entries)
    rw [hfirst] at hleads
    exact ⟨_, hleads, .lexical⟩
  · next hleading =>
    rw [hleading] at horder ⊢
    exact passes_reports horder h

theorem parse_eq_error_iff {feed : Feed} {e : SyntaxError} :
    feed.parse = .error e ↔ feed.problem? = some e := by
  unfold parse
  split
  · next h => simp [h]
  · next h => simp [h]

theorem parseAll_of_leads {feed : Feed} {first : SyntaxError} (h : first.Leads feed.errors) :
    ∃ rest, feed.parseAll = .error (first :: rest) ∧
      ∀ other ∈ rest, first.span.start ≤ other.span.start := by
  obtain ⟨rest, hsort, hrest⟩ := h.mergeSort
  refine ⟨rest, ?_, hrest⟩
  unfold parseAll
  split
  · next hnil =>
    obtain ⟨_, _, heq, -⟩ := h
    rw [hnil] at heq
    simp at heq
  · exact congrArg Except.error hsort

end Feed

/-- The first error of the text is an integer out of range, and what follows the integer in the
text, trivia aside, is the lexical error. -/
def HidesOverflow (source : String) (error : LexicalError) : Prop :=
  ∃ digits span rest before after,
    parseAll source = .error (.grammar (.integerOverflow digits span) :: rest) ∧
    Lexeme.ofString source = before ++ .token ⟨.int digits, span⟩ :: .error error :: after

/-- Where an integer is the first error, it hides behind the first lexical error of its entry, and
behind no other. -/
theorem hidesOverflow_iff {source : String} {digits : String} {span : Span}
    {errors : List LexicalError} {rest : List SyntaxError}
    (hall : parseAll source = .error (.grammar (.integerOverflow digits span) :: rest))
    (hentry : ⟨⟨.int digits, span⟩, errors⟩ ∈ (Feed.ofString source).entries)
    {error : LexicalError} : HidesOverflow source error ↔ errors.head? = some error := by
  have horder := Lexeme.inOrder_ofString source
  rw [← Feed.lexemes_ofString] at horder
  rw [← Feed.exists_follows_iff horder hentry, Feed.lexemes_ofString]
  constructor
  · rintro ⟨digits', span', rest', before, after, hall', hfollows⟩
    rw [hall] at hall'
    cases hall'
    exact ⟨before, after, hfollows⟩
  · rintro ⟨before, after, hfollows⟩
    exact ⟨digits, span, rest, before, after, hall, hfollows⟩

/-- Stopping at the first problem reports the first of all errors, the one that begins before or
with every other, unless that is an integer out of range with a lexical error right behind it.  Then
the lexical error is reported. -/
theorem parse_error_eq_first_iff {source : String} {e : SyntaxError} (h : parse source = .error e) :
    ∃ first rest, parseAll source = .error (first :: rest) ∧
      (∀ other ∈ rest, first.span.start ≤ other.span.start) ∧
      (e = first ↔ ¬ ∃ error, HidesOverflow source error) ∧
      ∀ error, HidesOverflow source error → e = .lexical error := by
  have horder := Lexeme.inOrder_ofString source
  rw [← Feed.lexemes_ofString] at horder
  obtain ⟨first, hleads, hreports⟩ := Feed.reports horder (Feed.parse_eq_error_iff.1 h)
  obtain ⟨rest, hall, hrest⟩ := Feed.parseAll_of_leads hleads
  refine ⟨first, rest, hall, hrest, ?_⟩
  have hnot : (∀ digits span, first ≠ .grammar (.integerOverflow digits span)) →
      ∀ error, ¬ HidesOverflow source error := by
    rintro hfirst error ⟨digits, span, _, _, _, hall', -⟩
    have heq := hall.symm.trans hall'
    cases heq
    exact hfirst digits span rfl
  cases hreports with
  | lexical =>
    have hnone := hnot (fun _ _ => nofun)
    simp [hnone]
  | unexpected =>
    have hnone := hnot (fun _ _ => nofun)
    simp [hnone]
  | overflow hentry =>
    have hnone : ∀ error, ¬ HidesOverflow source error := by
      intro error herror
      cases (hidesOverflow_iff hall hentry).1 herror
    simp [hnone]
  | @hidden digits span error errors hentry =>
    have hhides : ∀ error', HidesOverflow source error' ↔ error = error' := by
      intro error'
      rw [hidesOverflow_iff hall hentry, List.head?_cons, Option.some.injEq]
    simp [hhides]

theorem parse_error_eq_first_missing_name :
    parse "var = 1" = .error (.grammar (.unexpectedToken [.ident]
      ⟨.punctuation .eq, ⟨4, 5, 1, 5⟩⟩)) ∧
    ∃ first rest, parseAll "var = 1" = .error (first :: rest) ∧
      (∀ other ∈ rest, first.span.start ≤ other.span.start) ∧
      (.grammar (.unexpectedToken [.ident] ⟨.punctuation .eq, ⟨4, 5, 1, 5⟩⟩) = first ↔
        ¬ ∃ error, HidesOverflow "var = 1" error) ∧
      ∀ error, HidesOverflow "var = 1" error →
        .grammar (.unexpectedToken [.ident] ⟨.punctuation .eq, ⟨4, 5, 1, 5⟩⟩) =
          SyntaxError.lexical error :=
  ⟨by decide +kernel, parse_error_eq_first_iff (by decide +kernel)⟩

/-- Not every first error is reported: the integer is out of range, and the stray character behind
it is reported instead. -/
theorem parse_hidden_overflow :
    parse "var x = 9223372036854775808 @" =
      .error (.lexical ⟨.unexpectedChar '@', ⟨28, 29, 1, 29⟩⟩) ∧
    parseAll "var x = 9223372036854775808 @" =
      .error [.grammar (.integerOverflow "9223372036854775808" ⟨8, 27, 1, 9⟩),
        .lexical ⟨.unexpectedChar '@', ⟨28, 29, 1, 29⟩⟩] ∧
    ¬ ∀ source e, parse source = .error e → ∃ rest, parseAll source = .error (e :: rest) := by
  have hparse : parse "var x = 9223372036854775808 @" =
      .error (.lexical ⟨.unexpectedChar '@', ⟨28, 29, 1, 29⟩⟩) := by decide +kernel
  have herrors : (Feed.ofString "var x = 9223372036854775808 @").errors =
      [.lexical ⟨.unexpectedChar '@', ⟨28, 29, 1, 29⟩⟩,
        .grammar (.integerOverflow "9223372036854775808" ⟨8, 27, 1, 9⟩)] := by decide +kernel
  have hall : parseAll "var x = 9223372036854775808 @" =
      .error [.grammar (.integerOverflow "9223372036854775808" ⟨8, 27, 1, 9⟩),
        .lexical ⟨.unexpectedChar '@', ⟨28, 29, 1, 29⟩⟩] := by
    rw [parseAll, Feed.parseAll, herrors]
    simp [List.mergeSort, List.MergeSort.Internal.splitInTwo, SyntaxError.span, GrammarError.span]
  refine ⟨hparse, hall, ?_⟩
  intro hfirst
  obtain ⟨rest, hrest⟩ := hfirst _ _ hparse
  rw [hall] at hrest
  cases hrest

end DeclLang
