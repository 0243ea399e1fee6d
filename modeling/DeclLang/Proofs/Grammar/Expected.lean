import DeclLang.Proofs.Grammar.Reader

/-!
# The tokens that could have come

An error about an unexpected token lists the classes of the tokens that could have come instead.
The list is exact, and the error is found at the earliest token that could tell
(`parseTokens_expected_exact`).

For a single stage this is `Stage.step_eq_refuse_iff`.  What is added here is that no stage leads
astray: from each an item can be completed (`Reader.exists_completion`), and a token of every class
that is listed can be read (`Reader.exists_read`).  So the tokens before the error can be gone on
with, with each of the classes listed, and with no other (`parseTokens_of_notMem`).
-/

namespace DeclLang

/-! ## Tokens that can be read -/

/-- A token of each class; the integer is in range. -/
def TokenClass.sample : TokenClass → Token.Kind
  | keyword word => .keyword word
  | punctuation mark => .punctuation mark
  | ident => .ident "x"
  | int => .int "0"
  | string => .string ""
  | eof => .eof

theorem TokenClass.tokenClass_sample (c : TokenClass) : c.sample.tokenClass = c := by
  cases c <;> rfl

theorem Token.Kind.tokenClass_eq_eof_iff {kind : Token.Kind} :
    kind.tokenClass = .eof ↔ kind = .eof := by
  cases kind <;> simp [tokenClass]

namespace Reader

variable {r s : Reader} {t : Token}

/-- A token that cannot come next stops a reader. -/
theorem read_of_notMem (ht : t.kind ≠ .eof) (h : t.kind.tokenClass ∉ r.stage.expected) :
    r.read t = .error (r.stage.unexpected t) :=
  read_of_refuse ((Stage.step_eq_refuse_iff ht).2 h)

/-- A reader that is stopped by a token that could not come next lists what could. -/
theorem of_read_eq_unexpected (ht : t.kind ≠ .eof) {expected : List TokenClass} {found : Token}
    (h : r.read t = .error (.unexpectedToken expected found)) :
    found = t ∧ expected = r.stage.expected ∧ t.kind.tokenClass ∉ r.stage.expected := by
  rcases r.stage.step_cases t with ⟨next, hgo⟩ | ⟨outcome, hfinish⟩ | hrefuse
  · rw [read_of_goesOn hgo] at h
    cases h
  · cases outcome with
    | ok item =>
      rw [read_of_finishes hfinish] at h
      cases h
    | error g =>
      rw [read_of_overflow hfinish] at h
      cases h
      obtain ⟨digits, -, hg⟩ := hfinish.eq_overflow
      cases hg
  · rw [read_of_refuse hrefuse] at h
    cases h
    exact ⟨rfl, rfl, (Stage.step_eq_refuse_iff ht).1 hrefuse⟩

/-- Of each class that is listed, but the end of input, some token can be read. -/
theorem exists_read {c : TokenClass} (hc : c ∈ r.stage.expected) (heof : c ≠ .eof) :
    ∃ t s, t.kind.tokenClass = c ∧ t.kind ≠ .eof ∧ r.read t = .ok s := by
  have hclass := c.tokenClass_sample
  have ht : c.sample ≠ .eof := by
    rw [Ne, ← Token.Kind.tokenClass_eq_eof_iff, hclass]
    exact heof
  refine ⟨⟨c.sample, .atStart⟩, ?_⟩
  rcases r.stage.step_cases ⟨c.sample, .atStart⟩ with ⟨next, hgo⟩ | ⟨outcome, hfinish⟩ | hrefuse
  · exact ⟨_, hclass, ht, read_of_goesOn hgo⟩
  · cases outcome with
    | ok item => exact ⟨_, hclass, ht, read_of_finishes hfinish⟩
    | error g =>
      obtain ⟨digits, hint, -⟩ := hfinish.eq_overflow
      rw [hint] at hfinish
      have hnone := hfinish.int64?_eq_none
      cases c <;> cases hint
      exact absurd hnone (by decide)
  · rw [Stage.step_eq_refuse_iff ht, hclass] at hrefuse
    exact absurd hc hrefuse

/-- An item that has been begun can be completed. -/
theorem exists_completion (r : Reader) :
    ∃ ts s, (∀ t ∈ ts, t.kind ≠ .eof) ∧ r.readAll ts = .ok s ∧ .eof ∈ s.stage.expected := by
  obtain ⟨stage, items⟩ := r
  cases stage with
  | atItem declared => exact ⟨[], _, nofun, rfl, Stage.eof_mem_expected_atItem declared⟩
  | atPath =>
    exact ⟨[⟨.string "", .atStart⟩], _, by simp, rfl, Stage.eof_mem_expected_atItem false⟩
  | atName kind start =>
    exact ⟨[⟨.ident "", .atStart⟩, ⟨.punctuation .eq, .atStart⟩, ⟨.string "", .atStart⟩], _,
      by simp, rfl, Stage.eof_mem_expected_atItem true⟩
  | atMark kind start name =>
    exact ⟨[⟨.punctuation .eq, .atStart⟩, ⟨.string "", .atStart⟩], _,
      by simp, rfl, Stage.eof_mem_expected_atItem true⟩
  | atValue kind start name =>
    exact ⟨[⟨.string "", .atStart⟩], _, by simp, rfl, Stage.eof_mem_expected_atItem true⟩

/-- Where a row of tokens fails at a token that could not come next, the tokens before it are read,
and the list is that of the stage they lead to. -/
theorem of_result_eq_unexpected {eof found : Token} {ts : List Token} {expected : List TokenClass}
    (hts : ∀ t ∈ ts, t.kind ≠ .eof) (heof : eof.kind = .eof)
    (h : result eof r ts = .error (.grammar (.unexpectedToken expected found))) :
    ∃ before rest s, ts = before ++ rest ∧ r.readAll before = .ok s ∧ expected = s.stage.expected ∧
      found = rest.head?.getD eof ∧ found.kind.tokenClass ∉ expected := by
  cases hread : r.readAll ts with
  | error g =>
    rw [result_of_error hread] at h
    cases h
    obtain ⟨before, t, after, s, rfl, hbefore, hstop⟩ := exists_of_readAll_error hread
    obtain ⟨rfl, rfl, hclass⟩ := of_read_eq_unexpected (hts t (by simp)) hstop
    exact ⟨before, _, s, rfl, hbefore, rfl, rfl, hclass⟩
  | ok s =>
    rw [← List.append_nil ts, result_append_of_ok hread] at h
    by_cases hmem : .eof ∈ s.stage.expected
    · rw [result_nil_of_mem hmem] at h
      cases h
    · rw [result_nil_of_notMem hmem] at h
      cases h
      refine ⟨ts, [], s, (List.append_nil ts).symm, hread, rfl, rfl, ?_⟩
      rw [heof]
      exact hmem

end Reader

/-! ## Going on behind tokens that were read -/

section GoOn

variable {before : List Token} {s : Reader} (hbefore : ∀ t ∈ before, t.kind ≠ .eof)
  (hread : Reader.start.readAll before = .ok s)
include hbefore hread

theorem parseTokens_append (after : List Token) :
    parseTokens (before ++ after) =
      Reader.result (Feed.ofTokens (before ++ after)).eof s (beforeEof after) := by
  rw [parseTokens_eq_reader, beforeEof_append hbefore, Reader.result_append_of_ok hread]

/-- A token that cannot come next is reported, whatever is behind it. -/
theorem parseTokens_of_notMem {t : Token} (h : t.kind.tokenClass ∉ s.stage.expected)
    (after : List Token) :
    parseTokens (before ++ t :: after) = .error (.grammar (s.stage.unexpected t)) := by
  rw [parseTokens_append hbefore hread]
  by_cases ht : t.kind = .eof
  · have heof : (Feed.ofTokens (before ++ t :: after)).eof = t :=
      Feed.eof_behind_append hbefore ht .atStart after
    have hnil : beforeEof (t :: after) = [] := by simp [beforeEof, ht]
    rw [ht] at h
    rw [hnil, Reader.result_nil_of_notMem h, heof]
  · have hcons : beforeEof (t :: after) = t :: beforeEof after := by simp [beforeEof, ht]
    rw [hcons]
    exact Reader.result_cons_of_error (Reader.read_of_notMem ht h)

/-- Tokens that were read can be gone on with to a row that is accepted. -/
theorem exists_parseTokens_ok : ∃ after file, parseTokens (before ++ after) = .ok file := by
  obtain ⟨ts, last, hts, hlast, hmem⟩ := s.exists_completion
  refine ⟨ts, .ofItems last.items, ?_⟩
  rw [parseTokens_append hbefore hread, beforeEof_eq_self hts, ← List.append_nil ts,
    Reader.result_append_of_ok hlast]
  exact Reader.result_nil_of_mem hmem

/-- The classes that are listed are those that can be gone on with. -/
theorem mem_expected_iff (c : TokenClass) :
    c ∈ s.stage.expected ↔ ∃ t after file, t.kind.tokenClass = c ∧
      parseTokens (before ++ t :: after) = .ok file := by
  constructor
  · intro hc
    by_cases heof : c = .eof
    · subst heof
      refine ⟨⟨.eof, .atStart⟩, [], .ofItems s.items, rfl, ?_⟩
      rw [parseTokens_append hbefore hread]
      exact Reader.result_nil_of_mem hc
    · obtain ⟨t, next, hclass, ht, hnext⟩ := Reader.exists_read hc heof
      have hreadAll : Reader.start.readAll (before ++ [t]) = .ok next := by
        rw [Reader.readAll_append_of_ok hread, Reader.readAll_cons_of_ok hnext, Reader.readAll_nil]
      have hkinds : ∀ u ∈ before ++ [t], u.kind ≠ .eof :=
        List.forall_mem_append.2 ⟨hbefore, List.forall_mem_singleton.2 ht⟩
      obtain ⟨after, file, hparse⟩ := exists_parseTokens_ok hkinds hreadAll
      rw [← List.append_cons] at hparse
      exact ⟨t, after, file, hclass, hparse⟩
  · rintro ⟨t, after, file, rfl, hparse⟩
    by_contra hnot
    rw [parseTokens_of_notMem hbefore hread hnot] at hparse
    cases hparse

end GoOn

/-! ## Rows of tokens -/

/-- A row without tokens is accepted. -/
theorem parseTokens_nil : parseTokens [] = .ok (.ofItems []) := by
  rw [parseTokens_eq_reader]
  exact Reader.result_nil_of_mem (Stage.eof_mem_expected_atItem false)

/-- The token that could not come next is one of the row, or the end of input behind its last
token. -/
theorem exists_of_parseTokens_unexpected {tokens : List Token} {expected : List TokenClass}
    {found : Token}
    (h : parseTokens tokens = .error (.grammar (.unexpectedToken expected found))) :
    ∃ before rest s, tokens = before ++ rest ∧ (∀ t ∈ before, t.kind ≠ .eof) ∧
      Reader.start.readAll before = .ok s ∧ expected = s.stage.expected ∧
      found.kind.tokenClass ∉ expected ∧
      (rest.head? = some found ∨
        rest = [] ∧ ∃ last, before.getLast? = some last ∧ found = last.eofAfter) := by
  have hne : tokens ≠ [] := by
    rintro rfl
    rw [parseTokens_nil] at h
    cases h
  rw [parseTokens_eq_reader] at h
  have hkind : (Feed.ofTokens tokens).eof.kind = .eof := Feed.eof_kind_behind _ _
  obtain ⟨before, rest, s, hsplit, hread, rfl, hfound, hclass⟩ :=
    Reader.of_result_eq_unexpected kind_ne_eof_of_mem_beforeEof hkind h
  have hkinds : ∀ t ∈ before ++ rest, t.kind ≠ .eof := by
    rw [← hsplit]
    exact kind_ne_eof_of_mem_beforeEof
  have hbefore := (List.forall_mem_append.1 hkinds).1
  rcases Feed.eof_ofTokens_cases tokens with ⟨after, happend⟩ | ⟨hall, hmade⟩
  · rw [hsplit, List.append_assoc] at happend
    refine ⟨before, rest ++ _ :: after, s, happend, hbefore, hread, rfl, hclass, .inl ?_⟩
    cases rest with
    | cons t rest => exact congrArg some hfound.symm
    | nil => exact congrArg some hfound.symm
  · rw [hall] at hsplit
    refine ⟨before, rest, s, hsplit, hbefore, hread, rfl, hclass, ?_⟩
    cases rest with
    | cons t rest => exact .inl (congrArg some hfound.symm)
    | nil =>
      rw [List.append_nil] at hsplit
      have hlast := List.getLast?_eq_some_getLast hne
      rw [← hsplit]
      exact .inr ⟨rfl, _, hlast, hfound.trans (hmade _ hlast)⟩

/-- An unexpected token is found as soon as there is one: it is one of the row, or the end of input
that is made up behind its last token, and the tokens before it can be gone on with.  The list of
what was expected is exact: a class is listed if and only if these tokens can be gone on with by a
token of it.  What follows the unexpected token in the row makes no difference. -/
theorem parseTokens_expected_exact {tokens : List Token} {expected : List TokenClass}
    {found : Token}
    (h : parseTokens tokens = .error (.grammar (.unexpectedToken expected found))) :
    ∃ i ≤ tokens.length,
      (tokens[i]? = some found ∨
        i = tokens.length ∧ ∃ last, tokens.getLast? = some last ∧ found = last.eofAfter) ∧
      (∃ after file, parseTokens (tokens.take i ++ after) = .ok file) ∧
      (∀ c, c ∈ expected ↔ ∃ t after file, t.kind.tokenClass = c ∧
        parseTokens (tokens.take i ++ t :: after) = .ok file) ∧
      (i < tokens.length → ∀ others, others.take (i + 1) = tokens.take (i + 1) →
        parseTokens others = .error (.grammar (.unexpectedToken expected found))) := by
  obtain ⟨before, rest, s, rfl, hbefore, hread, rfl, hclass, hfound⟩ :=
    exists_of_parseTokens_unexpected h
  have htake : (before ++ rest).take before.length = before := List.take_left
  refine ⟨before.length, by simp, ?_, ?_, ?_, ?_⟩
  · rcases hfound with hhead | ⟨rfl, hlast⟩
    · refine .inl ?_
      rw [List.getElem?_append_right (Nat.le_refl _), Nat.sub_self, ← List.head?_eq_getElem?, hhead]
    · rw [List.append_nil]
      exact .inr ⟨rfl, hlast⟩
  · rw [htake]
    exact exists_parseTokens_ok hbefore hread
  · rw [htake]
    exact mem_expected_iff hbefore hread
  · intro hlt others hothers
    have hhead : rest.head? = some found := by
      refine hfound.resolve_right ?_
      rintro ⟨rfl, -⟩
      simp at hlt
    obtain ⟨after, rfl⟩ := List.head?_eq_some_iff.1 hhead
    have hsame : others.take (before.length + 1) = before ++ [found] := by
      rw [hothers, List.append_cons, List.take_left' (by simp)]
    rw [← List.take_append_drop (before.length + 1) others, hsame, ← List.append_cons]
    exact parseTokens_of_notMem hbefore hread hclass _

/-- A declaration without its name.  What could have come instead of the mark can be gone on with,
and the digits behind it do not matter. -/
theorem parseTokens_expected_exact_missing_name :
    parseTokens [⟨.keyword .var, ⟨0, 3, 1, 1⟩⟩, ⟨.punctuation .eq, ⟨4, 5, 1, 5⟩⟩,
        ⟨.int "1", ⟨6, 7, 1, 7⟩⟩] =
      .error (.grammar (.unexpectedToken [.ident] ⟨.punctuation .eq, ⟨4, 5, 1, 5⟩⟩)) ∧
    ∃ i ≤ 3, ∀ c, c = .ident ↔ ∃ t after file, t.kind.tokenClass = c ∧
      parseTokens ([⟨.keyword .var, ⟨0, 3, 1, 1⟩⟩, ⟨.punctuation .eq, ⟨4, 5, 1, 5⟩⟩,
        ⟨.int "1", ⟨6, 7, 1, 7⟩⟩].take i ++ t :: after) = .ok file := by
  have hparse : parseTokens [⟨.keyword .var, ⟨0, 3, 1, 1⟩⟩, ⟨.punctuation .eq, ⟨4, 5, 1, 5⟩⟩,
      ⟨.int "1", ⟨6, 7, 1, 7⟩⟩] =
      .error (.grammar (.unexpectedToken [.ident] ⟨.punctuation .eq, ⟨4, 5, 1, 5⟩⟩)) := by
    decide +kernel
  obtain ⟨i, hi, -, -, hexpected, -⟩ := parseTokens_expected_exact hparse
  exact ⟨hparse, i, hi, fun c => by rw [← hexpected c, List.mem_singleton]⟩

end DeclLang
