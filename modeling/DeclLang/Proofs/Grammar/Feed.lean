import DeclLang.Grammar.Feed
import DeclLang.Proofs.Lexical.Layout

/-!
# What a feed holds

A feed is its lexemes put in groups.  `Feed.lexemes` undoes the grouping, and
`Feed.lexemes_ofString` says that for a source text nothing has been lost or moved.  Since the
lexemes of a source text come in order, so do the tokens and the errors of its feed
(`Feed.inOrder_ofString`), and `Feed.exists_follows_iff` finds the error that follows a token.

Of a row of tokens a feed takes those before the first end of input (`Feed.behind_tokens`).
-/

namespace DeclLang

/-! ## Rows of tokens -/

/-- The tokens before the first end of input, or all of them if there is none. -/
def beforeEof (tokens : List Token) : List Token := tokens.takeWhile fun t => t.kind != .eof

theorem Feed.behind_tokens (last : Token) (tokens : List Token) :
    (behind last (tokens.map .token)).leading = [] ∧
      (behind last (tokens.map .token)).entries = (beforeEof tokens).map (⟨·, []⟩) := by
  induction tokens generalizing last with
  | nil => exact ⟨rfl, rfl⟩
  | cons t tokens ih =>
    obtain ⟨hleading, hentries⟩ := ih t
    by_cases heof : t.kind = .eof
    · simp [behind, beforeEof, heof]
    · simp [behind, beforeEof, heof, hleading, hentries]

theorem Feed.ofTokens_fields (tokens : List Token) :
    (ofTokens tokens).leading = [] ∧ (∀ entry ∈ (ofTokens tokens).entries, entry.errors = []) ∧
      (ofTokens tokens).entries.map Entry.token = beforeEof tokens := by
  obtain ⟨hleading, hentries⟩ := behind_tokens .atStart tokens
  rw [ofTokens, ofLexemes, hentries, List.forall_mem_map, List.map_map]
  exact ⟨hleading, fun _ _ => rfl, List.map_id _⟩

/-- What is behind the first end of input is never read. -/
theorem Feed.behind_append_eof (last : Token) (tokens after : List Token) (span : Span) :
    behind last ((tokens ++ (⟨.eof, span⟩ : Token) :: after).map .token) =
      behind last ((tokens ++ [(⟨.eof, span⟩ : Token)]).map .token) := by
  induction tokens generalizing last with
  | nil => simp [behind]
  | cons t tokens ih =>
    simp only [List.cons_append, List.map_cons, behind, ih]

theorem kind_ne_eof_of_mem_beforeEof {tokens : List Token} :
    ∀ t ∈ beforeEof tokens, t.kind ≠ .eof := by
  intro t ht
  simpa using mem_takeWhile t ht

/-- A row of tokens is read to its last token, or has an end of input behind those that are read. -/
theorem beforeEof_cases (tokens : List Token) :
    beforeEof tokens = tokens ∨
      ∃ eof after, eof.kind = .eof ∧ tokens = beforeEof tokens ++ eof :: after := by
  have happend : beforeEof tokens ++ tokens.dropWhile (·.kind != .eof) = tokens :=
    List.takeWhile_append_dropWhile
  have hnot := List.head?_dropWhile_not (·.kind != Token.Kind.eof) tokens
  cases hrest : tokens.dropWhile (·.kind != .eof) with
  | nil =>
    rw [hrest, List.append_nil] at happend
    exact .inl happend
  | cons eof after =>
    rw [hrest] at happend hnot
    exact .inr ⟨eof, after, by simpa using hnot, happend.symm⟩

section Eof

variable {before : List Token} (hbefore : ∀ t ∈ before, t.kind ≠ .eof)
include hbefore

theorem beforeEof_append (after : List Token) :
    beforeEof (before ++ after) = before ++ beforeEof after :=
  List.takeWhile_append_of_pos fun t ht => by simpa using hbefore t ht

theorem beforeEof_eq_self : beforeEof before = before := by
  have happend : beforeEof (before ++ []) = before ++ [] := beforeEof_append hbefore []
  rwa [List.append_nil] at happend

/-- The first end of input among tokens is the one that is read. -/
theorem Feed.eof_behind_append {eof : Token} (heof : eof.kind = .eof) (start : Token)
    (after : List Token) :
    (behind start ((before ++ eof :: after).map .token)).eof = eof := by
  induction before generalizing start with
  | nil => simp [behind, heof]
  | cons t before ih =>
    obtain ⟨ht, hlater⟩ := List.forall_mem_cons.1 hbefore
    simp only [List.cons_append, List.map_cons, behind, if_neg ht]
    exact ih hlater t

/-- Where there is none, the end of input is made up behind the last token. -/
theorem Feed.eof_behind_getLast {last : Token} (hlast : before.getLast? = some last)
    (start : Token) : (behind start (before.map .token)).eof = last.eofAfter := by
  induction before generalizing start with
  | nil => cases hlast
  | cons t before ih =>
    obtain ⟨ht, hlater⟩ := List.forall_mem_cons.1 hbefore
    simp only [List.map_cons, behind, if_neg ht]
    cases before with
    | nil =>
      cases hlast
      rfl
    | cons u before =>
      rw [List.getLast?_cons_cons] at hlast
      exact ih hlater hlast t

end Eof

/-- The end of input of a row of tokens is behind those that are read, or else it is made up behind
the last. -/
theorem Feed.eof_ofTokens_cases (tokens : List Token) :
    (∃ after, tokens = beforeEof tokens ++ (ofTokens tokens).eof :: after) ∨
      beforeEof tokens = tokens ∧
        ∀ last ∈ tokens.getLast?, (ofTokens tokens).eof = last.eofAfter := by
  rcases beforeEof_cases tokens with hall | ⟨eof, after, heof, happend⟩
  · have hkinds : ∀ t ∈ tokens, t.kind ≠ .eof := by
      rw [← hall]
      exact kind_ne_eof_of_mem_beforeEof
    exact .inr ⟨hall, fun last hlast => eof_behind_getLast hkinds hlast .atStart⟩
  · have hsame : (ofTokens tokens).eof = eof := by
      rw [happend]
      exact eof_behind_append kind_ne_eof_of_mem_beforeEof heof .atStart after
    rw [hsame]
    exact .inl ⟨after, happend⟩

/-! ## The lexemes of a feed -/

/-- A feed ends with the end of input. -/
theorem Feed.eof_kind_behind (last : Token) (lexemes : List Lexeme) :
    (behind last lexemes).eof.kind = .eof := by
  induction lexemes generalizing last with
  | nil => rfl
  | cons lexeme lexemes ih =>
    cases lexeme with
    | error e => exact ih last
    | token t =>
      unfold behind
      split
      · next heof => exact heof
      · exact ih t

theorem Feed.token_mem_of_behind {last : Token} {lexemes : List Lexeme} {entry : Entry}
    (h : entry ∈ (behind last lexemes).entries) :
    .token entry.token ∈ lexemes ∧ entry.token.kind ≠ .eof := by
  induction lexemes generalizing last with
  | nil => cases h
  | cons lexeme lexemes ih =>
    cases lexeme with
    | error e =>
      obtain ⟨hmem, hkind⟩ := ih h
      exact ⟨List.mem_cons_of_mem _ hmem, hkind⟩
    | token t =>
      unfold behind at h
      split at h
      · cases h
      · next hkind =>
        rcases List.mem_cons.1 h with rfl | hlater
        · exact ⟨List.mem_cons_self, hkind⟩
        · obtain ⟨hmem, hkind⟩ := ih hlater
          exact ⟨List.mem_cons_of_mem _ hmem, hkind⟩

/-- The lexemes that an entry was made from. -/
def Feed.Entry.lexemes (entry : Entry) : List Lexeme :=
  .token entry.token :: entry.errors.map .error

namespace Feed

/-- The lexemes that entries were made from, with the end of input behind them. -/
def row (eof : Token) (entries : List Entry) : List Lexeme :=
  entries.flatMap Entry.lexemes ++ [.token eof]

/-- The lexemes that a feed was made from. -/
def lexemes (feed : Feed) : List Lexeme :=
  feed.leading.map .error ++ row feed.eof feed.entries

/-- The first token of a row. -/
def front (eof : Token) : List Entry → Token
  | [] => eof
  | entry :: _ => entry.token

theorem row_eq_cons (eof : Token) (entries : List Entry) :
    ∃ more, row eof entries = .token (front eof entries) :: more := by
  cases entries with
  | nil => exact ⟨[], rfl⟩
  | cons entry entries => exact ⟨_, rfl⟩

theorem row_append (eof : Token) (before after : List Entry) :
    row eof (before ++ after) = before.flatMap Entry.lexemes ++ row eof after := by
  rw [row, List.flatMap_append, List.append_assoc]
  rfl

theorem row_cons (eof : Token) (entry : Entry) (entries : List Entry) :
    row eof (entry :: entries) =
      .token entry.token :: (entry.errors.map .error ++ row eof entries) := by
  rw [row, List.flatMap_cons, List.append_assoc]
  rfl

theorem lexemes_behind_error (last : Token) (e : LexicalError) (more : List Lexeme) :
    (behind last (.error e :: more)).lexemes = .error e :: (behind last more).lexemes := rfl

theorem lexemes_behind_token {t : Token} (ht : t.kind ≠ .eof) (last : Token)
    (more : List Lexeme) :
    (behind last (.token t :: more)).lexemes = .token t :: (behind t more).lexemes := by
  rw [behind, if_neg ht, lexemes, row_cons]
  rfl

/-- Up to the end of input, a feed holds the lexemes that it was made from, in their order. -/
theorem lexemes_behind {last eof : Token} {init : List Lexeme} (heof : eof.kind = .eof)
    (hinit : ∀ lexeme ∈ init, Cursor.isEnd lexeme = false) :
    (behind last (init ++ [.token eof])).lexemes = init ++ [.token eof] := by
  induction init generalizing last with
  | nil => simp [behind, heof, lexemes, row]
  | cons lexeme init ih =>
    obtain ⟨hlexeme, hlater⟩ := List.forall_mem_cons.1 hinit
    cases lexeme with
    | error e => rw [List.cons_append, lexemes_behind_error, ih hlater]
    | token t =>
      have ht : t.kind ≠ .eof := by simpa [Cursor.isEnd] using hlexeme
      rw [List.cons_append, lexemes_behind_token ht, ih hlater]

theorem lexemes_ofString (source : String) :
    (ofString source).lexemes = Lexeme.ofString source := by
  have hreading : IsReading source (Lexeme.ofString source) := isReading_iff.2 rfl
  obtain ⟨init, eof, hlexemes, heof, -, -, hinit⟩ := hreading.coversSource
  rw [ofString, ofLexemes, hlexemes]
  refine lexemes_behind heof ?_
  intro lexeme hmem
  obtain ⟨_, _, _, _, _, _, _, hspells⟩ := hinit lexeme hmem
  exact Cursor.isEnd_of_spells hspells

end Feed

/-! ## The order of lexemes -/

/-- Each lexeme begins before those behind it. -/
def Lexeme.InOrder (lexemes : List Lexeme) : Prop :=
  lexemes.Pairwise fun a b => a.span.start < b.span.start

theorem Lexeme.inOrder_ofString (source : String) : InOrder (ofString source) := by
  have hreading : IsReading source (ofString source) := isReading_iff.2 rfl
  obtain ⟨init, eof, hlexemes, -, -, -, hinit⟩ := hreading.coversSource
  obtain ⟨mark, p, cs, -, -, hlayout⟩ := hreading.exists_layout
  have hpairwise := hlayout.pairwise.2
  rw [hlexemes] at hpairwise ⊢
  rw [List.pairwise_append] at hpairwise
  obtain ⟨hfirst, -, hend⟩ := hpairwise
  have hlt : ∀ a ∈ init, a.span.start < a.span.stop :=
    fun a ha => (hinit a ha).start_lt_stop.1
  rw [InOrder, List.pairwise_append]
  refine ⟨?_, List.pairwise_singleton _ _, ?_⟩
  · refine hfirst.imp_of_mem ?_
    intro a b ha _ hab
    exact Nat.lt_of_lt_of_le (hlt a ha) hab
  · intro a ha b hb
    exact Nat.lt_of_lt_of_le (hlt a ha) (hend a ha b hb)

theorem Lexeme.InOrder.nodup {lexemes : List Lexeme} (h : InOrder lexemes) : lexemes.Nodup := by
  refine h.imp ?_
  rintro a b hlt rfl
  exact Nat.lt_irrefl _ hlt

namespace Feed

/-- The error that follows a token in a source text is the first that the feed has with it. -/
theorem exists_follows_iff {feed : Feed} (h : Lexeme.InOrder feed.lexemes) {entry : Entry}
    (hentry : entry ∈ feed.entries) {error : LexicalError} :
    (∃ before after, feed.lexemes = before ++ .token entry.token :: .error error :: after) ↔
      entry.errors.head? = some error := by
  obtain ⟨first, later, hentries⟩ := List.append_of_mem hentry
  have hlexemes : feed.lexemes =
      (feed.leading.map .error ++ first.flatMap Entry.lexemes) ++
        .token entry.token :: (entry.errors.map .error ++ row feed.eof later) := by
    rw [lexemes, hentries, row_append, row_cons, List.append_assoc]
  rw [hlexemes]
  constructor
  · rintro ⟨before, after, heq⟩
    have hnodup := h.nodup
    rw [hlexemes, (List.perm_middle).nodup_iff, List.nodup_cons, List.mem_append, not_or] at hnodup
    obtain ⟨-, -, hbehind⟩ := (List.append_cons_inj_of_notMem hnodup.1.1 hnodup.1.2).1 heq
    cases herrors : entry.errors with
    | cons e errors =>
      rw [herrors] at hbehind
      cases hbehind
      rfl
    | nil =>
      rw [herrors] at hbehind
      cases later <;> cases hbehind
  · intro hhead
    obtain ⟨errors, herrors⟩ := List.head?_eq_some_iff.1 hhead
    rw [herrors]
    exact ⟨_, _, rfl⟩

end Feed

end DeclLang
