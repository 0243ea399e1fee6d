import DeclLang.Proofs.Grammar.FirstError
import DeclLang.Proofs.Lexical.Stream
import DeclLang.Proofs.Lexical.Truncation

/-!
# Ways of reading that agree

There are two ways of reading a feed, two ways of getting at the feed of a source text, and two
places at which a source text can be cut short.

* Stopping at the first problem and giving all errors accept the same feeds and make the same
  trees (`parseAll_eq_ok_iff_parse`).  An item that breaks off behind a lexical error adds no error
  of its own, but then the lexical error is there, so `Pass.errors` is empty only where
  `Pass.problem?` is.
* Taking the lexemes one by one and taking all tokens first come to the same where there is no
  lexical error, and otherwise nothing is accepted (`parse_eq_of_lex`).  `passes_problem_cut` cuts a
  feed at its first problem: no lexical error lies before the cut.
* Leaving out the tokens behind one of them and cutting the text off behind it come to the same
  (`parseTokens_cut_short`).  The end of input that is made up behind the last token is the one
  that the cut text has.
-/

namespace DeclLang

/-! ## Giving all errors -/

/-- Leaving out a failure that repeats a lexical error leaves the lexical error. -/
theorem Pass.problem?_eq_none_of_errors {p : Pass} (h : p.errors = []) : p.problem? = none := by
  rw [errors, List.append_eq_nil_iff, List.append_eq_nil_iff] at h
  obtain ⟨⟨hread, hfailure⟩, -⟩ := h
  cases houtcome : p.outcome with
  | ok item =>
    exact problem?_eq_none_iff.2 ⟨lexicalErrors_eq_nil_iff.1 hread, item, houtcome⟩
  | error g =>
    rw [failure_of_lexicalErrors_eq_nil houtcome hread] at hfailure
    cases hfailure

/-- A pass has no errors exactly when it has no problem. -/
theorem Pass.errors_ofAttempt_eq_nil_iff {a : Attempt} :
    (ofAttempt a).1.errors = [] ↔ (ofAttempt a).1.problem? = none := by
  refine ⟨problem?_eq_none_of_errors, ?_⟩
  intro h
  obtain ⟨item, read, rest, rfl, hread⟩ := attempt_of_problem?_eq_none h
  exact errors_eq_nil rfl hread rfl

theorem passes_errors_eq_nil_iff {eof : Token} {declared : Bool} {entries : List Feed.Entry} :
    (passes eof declared entries).flatMap Pass.errors = [] ↔
      ∀ p ∈ passes eof declared entries, p.problem? = none := by
  induction declared, entries using passes.induct eof with
  | case1 => simp
  | case2 declared entry rest step ih =>
    rw [passes, List.flatMap_cons, List.append_eq_nil_iff, List.forall_mem_cons, ih,
      Pass.errors_ofAttempt_eq_nil_iff]

namespace Feed

variable {feed : Feed} {file : SourceFile}

theorem errors_eq_nil_iff : feed.errors = [] ↔ feed.problem? = none := by
  rw [errors, List.append_eq_nil_iff, List.map_eq_nil_iff, problem?_eq_none_iff, passes,
    passes_errors_eq_nil_iff]

theorem parse_eq_ok_iff_problem? :
    feed.parse = .ok file ↔ feed.problem? = none ∧ feed.sourceFile = file := by
  unfold parse
  split
  · next h => simp [h]
  · next h => simp [h]

theorem parseAll_eq_ok_iff_errors :
    feed.parseAll = .ok file ↔ feed.errors = [] ∧ feed.sourceFile = file := by
  unfold parseAll
  split
  · next h => simp [h]
  · next hne => exact iff_of_false nofun fun h => hne h.1

theorem parseAll_eq_ok_iff : feed.parseAll = .ok file ↔ feed.parse = .ok file := by
  rw [parseAll_eq_ok_iff_errors, parse_eq_ok_iff_problem?, errors_eq_nil_iff]

end Feed

/-- Whether errors are collected or the first of them stops the reading, the same rows of lexemes
are accepted and the same trees are made of them. -/
theorem parseAll_eq_ok_iff_parse :
    (∀ lexemes file, (Feed.ofLexemes lexemes).parseAll = .ok file ↔
      (Feed.ofLexemes lexemes).parse = .ok file) ∧
    ∀ source file, parseAll source = .ok file ↔ parse source = .ok file :=
  ⟨fun _ _ => Feed.parseAll_eq_ok_iff, fun _ _ => Feed.parseAll_eq_ok_iff⟩

/-! ## Rows without errors -/

theorem Feed.ofString_eq_ofTokens {source : String} (h : lexicalErrors source = []) :
    ofString source = ofTokens (tokens source) :=
  congrArg ofLexemes (Lexeme.eq_map_token h)

/-! ## Reading up to the first problem -/

/-- `Lexeme.CutAt lexemes e`: there is no lexical error before the cut, and `e` is the lexical error
right behind the cut or an error of the grammar before it. -/
def Lexeme.CutAt (lexemes : List Lexeme) (e : SyntaxError) : Prop :=
  ∃ before after, lexemes = before ++ after ∧ (∀ lexeme ∈ before, lexeme.error? = none) ∧
    ((∃ error more, e = .lexical error ∧ after = .error error :: more) ∨
      ∃ g, e = .grammar g ∧ e.LiesIn before)

namespace Lexeme

variable {lexemes before after : List Lexeme} {e : SyntaxError}

theorem CutAt.append_left (h : CutAt after e) (hbefore : ∀ lexeme ∈ before, lexeme.error? = none) :
    CutAt (before ++ after) e := by
  obtain ⟨first, later, rfl, hfirst, hcut⟩ := h
  refine ⟨before ++ first, later, (List.append_assoc ..).symm,
    List.forall_mem_append.2 ⟨hbefore, hfirst⟩, ?_⟩
  rcases hcut with hcut | ⟨g, hg, hlies⟩
  · exact .inl hcut
  · exact .inr ⟨g, hg, hlies.append_right⟩

/-- Lexemes are cut at the first lexical error among them. -/
theorem cutAt_of_filterMap {more : List SyntaxError}
    (h : before.filterMap syntaxError? = e :: more) : CutAt (before ++ after) e := by
  obtain ⟨first, lexeme, later, rfl, hfirst, hlexeme, -⟩ := List.filterMap_eq_cons_iff.1 h
  cases lexeme with
  | token t => cases hlexeme
  | error error =>
    cases hlexeme
    refine ⟨first, .error error :: (later ++ after), by simp, ?_, .inl ⟨error, _, rfl, rfl⟩⟩
    intro lexeme hmem
    exact Option.map_eq_none_iff.1 (hfirst lexeme hmem)

theorem error_mem_of_findSome? {error : LexicalError}
    (h : lexemes.findSome? error? = some error) : .error error ∈ lexemes := by
  obtain ⟨lexeme, hmem, hlexeme⟩ := List.exists_of_findSome?_eq_some h
  cases lexeme with
  | token t => cases hlexeme
  | error found =>
    cases hlexeme
    exact hmem

/-- The first lexical error comes behind the cut, if it is not the error at the cut. -/
theorem CutAt.eq_or_start_lt (h : CutAt lexemes e) (horder : InOrder lexemes)
    {error : LexicalError} (herror : lexemes.findSome? error? = some error) :
    e = .lexical error ∨ ∃ g, e = .grammar g ∧ g.span.start < error.span.start := by
  obtain ⟨before, after, rfl, hbefore, hcut⟩ := h
  rw [List.findSome?_append, List.findSome?_eq_none_iff.2 hbefore, Option.none_or] at herror
  rcases hcut with ⟨found, more, rfl, rfl⟩ | ⟨g, rfl, hlies⟩
  · cases herror
    exact .inl rfl
  · have hbehind : (SyntaxError.lexical error).LiesIn after :=
      ⟨_, error_mem_of_findSome? herror, rfl⟩
    exact .inr ⟨g, rfl, hlies.start_lt hbehind horder⟩

end Lexeme

theorem Feed.error?_of_lexicalErrors_eq_nil {entries : List Entry}
    (h : Pass.lexicalErrors entries = []) :
    ∀ lexeme ∈ entries.flatMap Entry.lexemes, lexeme.error? = none := by
  rw [Pass.lexicalErrors_eq_filterMap, List.filterMap_eq_nil_iff] at h
  intro lexeme hmem
  exact Option.map_eq_none_iff.1 (h lexeme hmem)

/-- A feed is cut at the problem of its first pass: at the first lexical error that the attempt came
upon, or else behind the token that the attempt failed at. -/
theorem attempt_problem_cut {eof : Token} {stage : Stage} {entries : List Feed.Entry}
    {e : SyntaxError} (h : (Pass.ofAttempt (attempt eof stage entries)).1.problem? = some e) :
    Lexeme.CutAt (Feed.row eof entries) e := by
  obtain ⟨-, hfields, -⟩ := Pass.ofAttempt_fields (attempt eof stage entries)
  rw [← attempt_append eof stage entries, Feed.row_append, ← hfields]
  rcases Pass.problem?_eq_some h with ⟨more, hread⟩ | ⟨hread, g, hg, rfl⟩
  · rw [Pass.lexicalErrors_eq_filterMap] at hread
    exact Lexeme.cutAt_of_filterMap hread
  · have hnone := Feed.error?_of_lexicalErrors_eq_nil hread
    rcases Pass.outcome_cases eof stage entries with
      hunexpected | ⟨init, digits, span, errors, hinit, houtcome⟩
    · obtain ⟨expected, rfl⟩ := hunexpected g hg
      obtain ⟨more, hrow⟩ := Feed.row_eq_cons eof (attempt eof stage entries).rest
      rw [hrow]
      refine Lexeme.CutAt.append_left ?_ hnone
      exact ⟨[_], more, rfl, by simp [Lexeme.error?],
        .inr ⟨_, rfl, _, List.mem_singleton_self _, rfl⟩⟩
    · rw [houtcome] at hg
      cases hg
      refine ⟨_, _, rfl, hnone, .inr ⟨_, rfl, .token ⟨.int digits, span⟩, ?_, rfl⟩⟩
      simp [hinit, Feed.Entry.lexemes]

theorem passes_problem_cut {eof : Token} {declared : Bool} {entries : List Feed.Entry}
    {e : SyntaxError} (h : (passes eof declared entries).findSome? Pass.problem? = some e) :
    Lexeme.CutAt (Feed.row eof entries) e := by
  induction declared, entries using passes.induct eof with
  | case1 =>
    rw [passes_nil] at h
    cases h
  | case2 declared entry rest step ih =>
    rw [passes, List.findSome?_cons] at h
    split at h
    · next hproblem =>
      cases h
      exact attempt_problem_cut hproblem
    · next hnone =>
      obtain ⟨item, read, left, hattempt, hread⟩ := attempt_of_problem?_eq_none hnone
      have hleft : step.2 = left := by rw [show step = _ from congrArg Pass.ofAttempt hattempt]; rfl
      obtain ⟨happend, -⟩ := attempt_eq_ok_iff.1 hattempt
      rw [happend, Feed.row_append, ← hleft]
      refine (ih h).append_left ?_
      exact Feed.error?_of_lexicalErrors_eq_nil (Pass.lexicalErrors_eq_nil_iff.2 hread)

theorem Feed.problem_cut {feed : Feed} {e : SyntaxError} (h : feed.problem? = some e) :
    Lexeme.CutAt feed.lexemes e := by
  unfold problem? at h
  rw [lexemes]
  split at h
  · next error errors hleading =>
    cases h
    rw [hleading]
    exact ⟨[], _, rfl, by simp, .inl ⟨error, _, rfl, rfl⟩⟩
  · next hleading =>
    rw [hleading]
    exact passes_problem_cut h

/-- A feed with a lexical error has a problem. -/
theorem Feed.exists_problem {feed : Feed} {error : LexicalError}
    (h : .error error ∈ feed.lexemes) : ∃ e, feed.problem? = some e := by
  rw [← Option.isSome_iff_exists, Option.isSome_iff_ne_none]
  intro hnone
  have hparse : feed.parse = .ok feed.sourceFile := parse_eq_ok_iff_problem?.2 ⟨hnone, rfl⟩
  obtain ⟨hleading, hentries, -⟩ := parse_eq_ok_iff.1 hparse
  have hnone := error?_of_lexicalErrors_eq_nil (Pass.lexicalErrors_eq_nil_iff.2 hentries)
  rw [lexemes, hleading, row, List.map_nil, List.nil_append, List.mem_append] at h
  rcases h with h | h
  · cases hnone _ h
  · cases List.mem_singleton.1 h

/-- Where all of a source text can be cut into tokens, reading the text is reading the tokens.
Otherwise the text is not accepted, and what is reported is the first lexical error or an error of
the grammar that begins before it. -/
theorem parse_eq_of_lex (source : String) :
    match lex source with
    | .ok tokens => parse source = parseTokens tokens
    | .error error => ∃ e, parse source = .error e ∧
        (e = .lexical error ∨ ∃ g, e = .grammar g ∧ g.span.start < error.span.start) := by
  unfold lex
  cases hfirst : (Lexeme.ofString source).findSome? Lexeme.error? with
  | none =>
    have hnone : lexicalErrors source = [] :=
      List.filterMap_eq_nil_iff.2 (List.findSome?_eq_none_iff.1 hfirst)
    exact congrArg Feed.parse (Feed.ofString_eq_ofTokens hnone)
  | some error =>
    rw [← Feed.lexemes_ofString] at hfirst
    obtain ⟨e, hproblem⟩ := Feed.exists_problem (Lexeme.error_mem_of_findSome? hfirst)
    have horder := Lexeme.inOrder_ofString source
    rw [← Feed.lexemes_ofString] at horder
    exact ⟨e, Feed.parse_eq_error_iff.2 hproblem,
      (Feed.problem_cut hproblem).eq_or_start_lt horder hfirst⟩

/-! ## Reading less -/

/-- Writing out the end of input that would be made up changes nothing. -/
theorem Feed.behind_append_eofAfter (start last : Token) (tokens : List Token) :
    behind start ((tokens ++ [last, last.eofAfter]).map .token) =
      behind start ((tokens ++ [last]).map .token) := by
  induction tokens generalizing start with
  | nil =>
    have heof : last.eofAfter.kind = .eof := rfl
    simp only [List.nil_append, List.map_cons, List.map_nil, behind, heof, if_pos]
  | cons t tokens ih => simp only [List.cons_append, List.map_cons, behind, ih]

/-- The text that is cut off behind a token is cut between two characters.  It has the tokens up to
there and behind them the end of input that is worked out from the last, and reading it is reading
these tokens: the same tree is made of both, or the same error is reported, with the same spans.
The bound excludes no text that can be held in memory, since lengths there are signed machine words;
it is there because the column of the end of input that is worked out is a machine word too. -/
theorem parseTokens_cut_short {source : String} {ts : List Token} {last : Token}
    (hsize : source.utf8ByteSize < 2 ^ 63)
    (h : (ts ++ [last]).map .token <+: Lexeme.ofString source) (hlast : last.kind ≠ .eof) :
    (upTo source last.span.stop).utf8ByteSize = last.span.stop ∧
      lex (upTo source last.span.stop) = .ok (ts ++ [last, last.eofAfter]) ∧
      parseTokens (ts ++ [last]) = parse (upTo source last.span.stop) := by
  obtain ⟨-, hwidth, hlexemes⟩ := ofString_upTo h hlast
  have hwords : 1 + source.utf8ByteSize < UInt64.size := by
    have hsize' : UInt64.size = 2 ^ 64 := rfl
    omega
  rw [← Token.eofAfter_of_prefix h hlast hwords] at hlexemes
  refine ⟨hwidth, lex_eq_ok_iff.2 hlexemes, ?_⟩
  rw [parse_eq_parseTokens hlexemes, parseTokens, parseTokens, Feed.ofTokens, Feed.ofTokens,
    Feed.ofLexemes, Feed.ofLexemes, Feed.behind_append_eofAfter]

theorem parseTokens_cut_short_unknown_escape :
    "import 'h\\éx'é var".utf8ByteSize < 2 ^ 63 ∧
      [Token.mk (.keyword .import) ⟨0, 6, 1, 1⟩, ⟨.string "h\\éx", ⟨7, 14, 1, 8⟩⟩].map .token <+:
        Lexeme.ofString "import 'h\\éx'é var" ∧
      Token.Kind.string "h\\éx" ≠ .eof ∧
      (upTo "import 'h\\éx'é var" 14).utf8ByteSize = 14 ∧
      lex (upTo "import 'h\\éx'é var" 14) =
        .ok [⟨.keyword .import, ⟨0, 6, 1, 1⟩⟩, ⟨.string "h\\éx", ⟨7, 14, 1, 8⟩⟩,
          Token.eofAfter ⟨.string "h\\éx", ⟨7, 14, 1, 8⟩⟩] ∧
      parseTokens [⟨.keyword .import, ⟨0, 6, 1, 1⟩⟩, ⟨.string "h\\éx", ⟨7, 14, 1, 8⟩⟩] =
        parse (upTo "import 'h\\éx'é var" 14) := by
  have hfront : [Token.mk (.keyword .import) ⟨0, 6, 1, 1⟩,
      ⟨.string "h\\éx", ⟨7, 14, 1, 8⟩⟩].map .token <+:
        Lexeme.ofString "import 'h\\éx'é var" := by decide +kernel
  have hkind : Token.Kind.string "h\\éx" ≠ .eof := by decide
  have hsize : "import 'h\\éx'é var".utf8ByteSize < 2 ^ 63 := by decide
  exact ⟨hsize, hfront, hkind, @parseTokens_cut_short _ [⟨.keyword .import, ⟨0, 6, 1, 1⟩⟩]
    ⟨.string "h\\éx", ⟨7, 14, 1, 8⟩⟩ hsize hfront hkind⟩

end DeclLang
