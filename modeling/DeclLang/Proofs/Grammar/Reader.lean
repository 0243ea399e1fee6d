import DeclLang.Proofs.Grammar.ErrorOrder

/-!
# Reading a row of tokens one by one

Where there are no lexical errors and reading stops at the first problem, nothing is ever skipped.
What has been read of a row of tokens then comes down to a `Reader`: the items that are complete,
and the stage that the next item is at.  `Reader.read` reads one token, and `Reader.finish` says
what the end of input makes of a reader.

`parseTokens_eq_reader` says that reading a row of tokens is reading them one by one and then the
end of input.  So whatever holds of one step, and is kept by it, holds of rows of any length:
`Reader.readAll` goes over a row, and `Reader.exists_of_readAll_error` finds the token that stopped
it.
-/

namespace DeclLang

/-- How far a row of tokens has been read. -/
structure Reader where
  /-- The stage of the item that is being read. -/
  stage : Stage
  /-- The items before that one. -/
  items : List Item

namespace Reader

/-- Before the first token. -/
def start : Reader := ⟨.atItem false, []⟩

/-- Reads a token. -/
def read (r : Reader) (t : Token) : Except GrammarError Reader :=
  match r.stage.step t with
  | .goOn next => .ok ⟨next, r.items⟩
  | .finish (.ok item) => .ok ⟨.atItem item.isDeclaration, r.items ++ [item]⟩
  | .finish (.error g) => .error g
  | .refuse => .error (r.stage.unexpected t)

/-- Reads tokens one after another. -/
def readAll (r : Reader) (ts : List Token) : Except GrammarError Reader := ts.foldlM read r

/-- Reads the end of input, which can come only where it is expected. -/
def finish (eof : Token) (r : Reader) : Except GrammarError SourceFile :=
  if .eof ∈ r.stage.expected then .ok (.ofItems r.items) else .error (r.stage.unexpected eof)

/-- What a row of tokens with the end of input behind it comes to. -/
def result (eof : Token) (r : Reader) (ts : List Token) : Except SyntaxError SourceFile :=
  ((r.readAll ts).bind (finish eof)).mapError .grammar

/-! ## Single tokens -/

section Read

variable {stage next : Stage} {items : List Item} {t : Token}

theorem read_of_goesOn (h : stage.GoesOn t next) : read ⟨stage, items⟩ t = .ok ⟨next, items⟩ := by
  rw [read, h.step_eq]

theorem read_of_finishes {item : Item} (h : stage.Finishes t (.ok item)) :
    read ⟨stage, items⟩ t = .ok ⟨.atItem item.isDeclaration, items ++ [item]⟩ := by
  rw [read, h.step_eq]

theorem read_of_overflow {g : GrammarError} (h : stage.Finishes t (.error g)) :
    read ⟨stage, items⟩ t = .error g := by
  rw [read, h.step_eq]

theorem read_of_refuse (h : stage.step t = .refuse) :
    read ⟨stage, items⟩ t = .error (stage.unexpected t) := by
  rw [read, h]

/-- What a token that is read makes of a reader. -/
theorem read_cases {r s : Reader} (h : r.read t = .ok s) :
    (∃ next, r.stage.GoesOn t next ∧ s = ⟨next, r.items⟩) ∨
      ∃ item, r.stage.Finishes t (.ok item) ∧
        s = ⟨.atItem item.isDeclaration, r.items ++ [item]⟩ := by
  rcases r.stage.step_cases t with ⟨next, hgo⟩ | ⟨outcome, hfinish⟩ | hrefuse
  · rw [read_of_goesOn hgo] at h
    cases h
    exact .inl ⟨next, hgo, rfl⟩
  · cases outcome with
    | ok item =>
      rw [read_of_finishes hfinish] at h
      cases h
      exact .inr ⟨item, hfinish, rfl⟩
    | error g =>
      rw [read_of_overflow hfinish] at h
      cases h
  · rw [read_of_refuse hrefuse] at h
    cases h

end Read

/-! ## Rows of tokens -/

section ReadAll

variable {r s : Reader} {t : Token} {ts us : List Token}

@[simp]
theorem readAll_nil (r : Reader) : r.readAll [] = .ok r := rfl

theorem readAll_cons_of_ok (h : r.read t = .ok s) : r.readAll (t :: ts) = s.readAll ts := by
  rw [readAll, List.foldlM_cons, h]
  rfl

theorem readAll_cons_of_error {g : GrammarError} (h : r.read t = .error g) :
    r.readAll (t :: ts) = .error g := by
  rw [readAll, List.foldlM_cons, h]
  rfl

theorem readAll_append_of_ok (h : r.readAll ts = .ok s) :
    r.readAll (ts ++ us) = s.readAll us := by
  rw [readAll] at h
  rw [readAll, List.foldlM_append, h]
  rfl

/-- A row that is not read to its end is read up to a token that stops it. -/
theorem exists_of_readAll_error {g : GrammarError} (h : r.readAll ts = .error g) :
    ∃ before t after s, ts = before ++ t :: after ∧ r.readAll before = .ok s ∧
      s.read t = .error g := by
  induction ts generalizing r with
  | nil => cases h
  | cons t ts ih =>
    cases hread : r.read t with
    | error g' =>
      rw [readAll_cons_of_error hread] at h
      cases h
      exact ⟨[], t, ts, r, rfl, rfl, hread⟩
    | ok next =>
      rw [readAll_cons_of_ok hread] at h
      obtain ⟨before, t', after, s, rfl, hbefore, hstop⟩ := ih h
      exact ⟨t :: before, t', after, s, rfl, by rw [readAll_cons_of_ok hread, hbefore], hstop⟩

variable {eof : Token}

theorem result_of_error {g : GrammarError} (h : r.readAll ts = .error g) :
    result eof r ts = .error (.grammar g) := by
  rw [result, h]
  rfl

theorem result_append_of_ok (h : r.readAll ts = .ok s) :
    result eof r (ts ++ us) = result eof s us := by
  rw [result, readAll_append_of_ok h]
  rfl

theorem result_cons_of_ok (h : r.read t = .ok s) : result eof r (t :: ts) = result eof s ts := by
  rw [result, readAll_cons_of_ok h]
  rfl

theorem result_cons_of_error {g : GrammarError} (h : r.read t = .error g) :
    result eof r (t :: ts) = .error (.grammar g) :=
  result_of_error (readAll_cons_of_error h)

theorem result_nil_of_mem (h : .eof ∈ r.stage.expected) :
    result eof r [] = .ok (.ofItems r.items) := by
  rw [result, readAll_nil]
  simp only [Except.bind, finish, if_pos h, Except.mapError]

theorem result_nil_of_notMem (h : .eof ∉ r.stage.expected) :
    result eof r [] = .error (.grammar (r.stage.unexpected eof)) := by
  rw [result, readAll_nil]
  simp only [Except.bind, finish, if_neg h, Except.mapError]

end ReadAll

/-! ## Accepted rows -/

section Accepted

variable {r s : Reader} {t : Token} {ts us : List Token}

theorem readAll_cons_eq_ok_iff :
    r.readAll (t :: ts) = .ok s ↔ ∃ next, r.read t = .ok next ∧ next.readAll ts = .ok s := by
  cases hread : r.read t with
  | error g => simp [readAll_cons_of_error hread]
  | ok next => simp [readAll_cons_of_ok hread]

theorem readAll_append_eq_ok_iff :
    r.readAll (ts ++ us) = .ok s ↔ ∃ next, r.readAll ts = .ok next ∧ next.readAll us = .ok s := by
  induction ts generalizing r with
  | nil => simp
  | cons t ts ih =>
    simp only [List.cons_append, readAll_cons_eq_ok_iff, ih]
    constructor
    · rintro ⟨next, hfirst, last, hts, hus⟩
      exact ⟨last, ⟨next, hfirst, hts⟩, hus⟩
    · rintro ⟨last, ⟨next, hfirst, hts⟩, hus⟩
      exact ⟨next, hfirst, last, hts, hus⟩

/-- A row is accepted if it is read to its end and the end of input can come there. -/
theorem result_eq_ok_iff {eof : Token} {file : SourceFile} :
    result eof r ts = .ok file ↔
      ∃ s, r.readAll ts = .ok s ∧ .eof ∈ s.stage.expected ∧ .ofItems s.items = file := by
  rw [← List.append_nil ts]
  constructor
  · intro h
    cases hread : r.readAll ts with
    | error g => simp [result, hread, Except.bind, Except.mapError] at h
    | ok s =>
      rw [result_append_of_ok hread] at h
      by_cases hmem : .eof ∈ s.stage.expected
      · rw [result_nil_of_mem hmem, Except.ok.injEq] at h
        exact ⟨s, by simp [hread], hmem, h⟩
      · rw [result_nil_of_notMem hmem] at h
        cases h
  · rintro ⟨s, hread, hmem, rfl⟩
    rw [List.append_nil] at hread
    rw [result_append_of_ok hread, result_nil_of_mem hmem]

/-- The reader with further items before those that it has. -/
def behind (items : List Item) (r : Reader) : Reader := ⟨r.stage, items ++ r.items⟩

/-- The items that are complete have no influence on a token. -/
theorem read_behind (items : List Item) (r : Reader) (t : Token) :
    (r.behind items).read t = (r.read t).map (behind items) := by
  rcases r.stage.step_cases t with ⟨next, hgo⟩ | ⟨outcome, hfinish⟩ | hrefuse
  · rw [behind, read_of_goesOn hgo, read, hgo.step_eq]
    rfl
  · cases outcome with
    | ok item =>
      rw [behind, read_of_finishes hfinish, read, hfinish.step_eq, List.append_assoc]
      rfl
    | error g =>
      rw [behind, read_of_overflow hfinish, read, hfinish.step_eq]
      rfl
  · rw [behind, read_of_refuse hrefuse, read, hrefuse]
    rfl

/-- The items that are complete are carried along unchanged. -/
theorem readAll_behind (items : List Item) (r : Reader) (ts : List Token) :
    (r.behind items).readAll ts = (r.readAll ts).map (behind items) := by
  induction ts generalizing r with
  | nil => rfl
  | cons t ts ih =>
    have hread := read_behind items r t
    cases hfirst : r.read t with
    | error g =>
      rw [hfirst] at hread
      rw [readAll_cons_of_error hfirst, readAll_cons_of_error hread]
      rfl
    | ok next =>
      rw [hfirst] at hread
      rw [readAll_cons_of_ok hfirst, readAll_cons_of_ok hread, ih]

end Accepted

end Reader

/-! ## Attempts -/

/-- An attempt that is under way, or has a token to begin with, decides how reading goes on: with
the item, or not at all. -/
theorem Reader.result_eq_of_attempt (eof : Token) (items : List Item) {stage : Stage}
    {entries : List Feed.Entry} (h : stage.IsInside ∨ entries ≠ []) :
    Reader.result eof ⟨stage, items⟩ (entries.map Feed.Entry.token) =
      match attempt eof stage entries with
      | ⟨.ok item, _, rest⟩ => Reader.result eof ⟨.atItem item.isDeclaration, items ++ [item]⟩
          (rest.map Feed.Entry.token)
      | ⟨.error g, _, _⟩ => .error (.grammar g) := by
  induction entries generalizing stage with
  | nil =>
    have hinside : stage.IsInside := h.resolve_right fun hne => hne rfl
    rw [List.map_nil, Reader.result_nil_of_notMem hinside.eof_notMem_expected]
    rfl
  | cons entry rest ih =>
    rw [List.map_cons]
    rcases stage.step_cases entry.token with ⟨next, hgo⟩ | ⟨outcome, hfinish⟩ | hrefuse
    · rw [Reader.result_cons_of_ok (Reader.read_of_goesOn hgo), ih (.inl hgo.isInside),
        attempt_of_goesOn hgo]
      cases attempt eof next rest with
      | mk outcome read left => cases outcome <;> rfl
    · rw [attempt_of_finishes hfinish]
      cases outcome with
      | ok item => rw [Reader.result_cons_of_ok (Reader.read_of_finishes hfinish)]
      | error g => exact Reader.result_cons_of_error (Reader.read_of_overflow hfinish)
    · rw [attempt_of_refuse hrefuse]
      exact Reader.result_cons_of_error (Reader.read_of_refuse hrefuse)

/-! ## Passes -/

/-- What stopping at the first problem makes of passes, with the items that there were before. -/
def Pass.result (items : List Item) (ps : List Pass) : Except SyntaxError SourceFile :=
  match ps.findSome? problem? with
  | some e => .error e
  | none => .ok (.ofItems (items ++ ps.filterMap item?))

namespace Pass

theorem result_cons_of_problem {p : Pass} {e : SyntaxError} (h : p.problem? = some e)
    (items : List Item) (ps : List Pass) : result items (p :: ps) = .error e := by
  rw [result, List.findSome?_cons, h]

theorem result_cons_of_item {p : Pass} {item : Item} (h : p.problem? = none)
    (hitem : p.outcome = .ok item) (items : List Item) (ps : List Pass) :
    result items (p :: ps) = result (items ++ [item]) ps := by
  have hfirst : p.item? = some item := by
    rw [item?, hitem]
    rfl
  rw [result, List.findSome?_cons, h, List.filterMap_cons_some hfirst, result, List.append_assoc]
  rfl

/-- Without lexical errors, the problem of a pass is its own failure. -/
theorem problem?_of_error {p : Pass} {g : GrammarError}
    (hread : ∀ entry ∈ p.read, entry.errors = []) (h : p.outcome = .error g) :
    p.problem? = some (.grammar g) := by
  simp only [problem?, lexicalErrors_eq_nil_iff.2 hread, h]

end Pass

/-- An attempt that fails makes the first pass fail in the same way. -/
theorem passes_result_of_error {eof : Token} {declared : Bool} {entries read left : List Feed.Entry}
    {g : GrammarError} (h : attempt eof (.atItem declared) entries = ⟨.error g, read, left⟩)
    (hne : entries ≠ []) (hread : ∀ entry ∈ read, entry.errors = []) (items : List Item) :
    Pass.result items (passes eof declared entries) = .error (.grammar g) := by
  obtain ⟨entry, rest, rfl⟩ := List.exists_cons_of_ne_nil hne
  obtain ⟨houtcome, hfields, -⟩ := Pass.ofAttempt_fields ⟨.error g, read, left⟩
  rw [passes, h]
  refine Pass.result_cons_of_problem (Pass.problem?_of_error ?_ houtcome) _ _
  rwa [hfields]

/-- Passes over tokens without lexical errors between them come to what reading the tokens one by
one comes to. -/
theorem passes_result_eq (eof : Token) (declared : Bool) (entries : List Feed.Entry)
    (items : List Item) (herrors : ∀ entry ∈ entries, entry.errors = []) :
    Pass.result items (passes eof declared entries) =
      Reader.result eof ⟨.atItem declared, items⟩ (entries.map Feed.Entry.token) := by
  induction declared, entries using passes.induct eof generalizing items with
  | case1 declared =>
    rw [passes_nil, List.map_nil, Reader.result_nil_of_mem (Stage.eof_mem_expected_atItem declared)]
    rw [Pass.result, List.findSome?_nil, List.filterMap_nil, List.append_nil]
  | case2 declared entry rest step ih =>
    rw [Reader.result_eq_of_attempt eof items (.inr (List.cons_ne_nil _ _))]
    have happend := attempt_append eof (.atItem declared) (entry :: rest)
    cases hattempt : attempt eof (.atItem declared) (entry :: rest) with
    | mk outcome read left =>
      rw [hattempt] at happend
      rw [← happend] at herrors
      obtain ⟨hread, hleft⟩ := List.forall_mem_append.1 herrors
      cases outcome with
      | error g => exact passes_result_of_error hattempt (List.cons_ne_nil _ _) hread items
      | ok item =>
        obtain ⟨-, horder⟩ := completes_iff_derivesItem.1 (attempt_eq_ok_iff.1 hattempt).2
        have hdeclared : (declared || item.isDeclaration) = item.isDeclaration :=
          Bool.or_eq_right_iff_imp.2 horder
        have hstep : step = (⟨.ok item, read, []⟩, left) := congrArg Pass.ofAttempt hattempt
        have hnone : Pass.problem? ⟨.ok item, read, []⟩ = none :=
          Pass.problem?_eq_none_iff.2 ⟨hread, item, rfl⟩
        rw [hstep] at ih
        have hlater := ih (items ++ [item]) hleft
        simp only [Pass.declares, hdeclared] at hlater
        rw [passes_of_attempt hattempt, Pass.result_cons_of_item hnone rfl, hdeclared, hlater]

/-! ## Rows of tokens -/

theorem Feed.parse_eq_result {feed : Feed} (h : feed.leading = []) :
    feed.parse = Pass.result [] feed.passes := by
  have hproblem : feed.problem? = feed.passes.findSome? Pass.problem? := by rw [problem?, h]
  cases hfirst : feed.passes.findSome? Pass.problem? with
  | none => simp only [parse, hproblem, hfirst, Pass.result, sourceFile, List.nil_append]
  | some e => simp only [parse, hproblem, hfirst, Pass.result]

/-- Reading a row of tokens is reading the tokens before the end of input one by one. -/
theorem parseTokens_eq_reader (tokens : List Token) :
    parseTokens tokens = Reader.result (Feed.ofTokens tokens).eof .start (beforeEof tokens) := by
  obtain ⟨hleading, herrors, htokens⟩ := Feed.ofTokens_fields tokens
  rw [parseTokens, Feed.parse_eq_result hleading, Feed.passes, passes_result_eq _ _ _ _ herrors,
    htokens]
  rfl

end DeclLang
