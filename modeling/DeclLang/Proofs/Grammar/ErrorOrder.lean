import DeclLang.Proofs.Grammar.Derivation

/-!
# The order of errors

Errors are given sorted by where they begin.  `SyntaxError.Leads` says of an error among those that
were noticed, one after another, that it comes first when they are sorted
(`SyntaxError.Leads.mergeSort`).

Each error has the span of a lexeme (`SyntaxError.LiesIn`), and the lexemes of a source text come in
order.  `passes_errors_liesIn` says that the errors of passes lie in the tokens that the passes go
over, so that what is behind a token cannot come before it.
-/

namespace DeclLang

/-! ## Sorting -/

namespace SyntaxError

/-- The order in which errors are given. -/
def comesBefore (a b : SyntaxError) : Bool := a.span.start ≤ b.span.start

theorem comesBefore_trans (a b c : SyntaxError) (hab : comesBefore a b = true)
    (hbc : comesBefore b c = true) : comesBefore a c = true := by
  simp only [comesBefore, decide_eq_true_eq] at hab hbc ⊢
  omega

theorem comesBefore_total (a b : SyntaxError) : (comesBefore a b || comesBefore b a) = true := by
  simp only [comesBefore, Bool.or_eq_true, decide_eq_true_eq]
  omega

/-- `first.Leads errors`: the error is among the given ones, begins before those that were noticed
before it, and no later than those that were noticed after it. -/
def Leads (first : SyntaxError) (errors : List SyntaxError) : Prop :=
  ∃ earlier later, errors = earlier ++ first :: later ∧
    (∀ other ∈ earlier, first.span.start < other.span.start) ∧
    ∀ other ∈ later, first.span.start ≤ other.span.start

/-- The error that leads comes first when errors are sorted. -/
theorem Leads.mergeSort {first : SyntaxError} {errors : List SyntaxError} (h : first.Leads errors) :
    ∃ rest, errors.mergeSort comesBefore = first :: rest ∧
      ∀ other ∈ rest, first.span.start ≤ other.span.start := by
  obtain ⟨earlier, later, rfl, hearlier, hlater⟩ := h
  induction earlier with
  | nil =>
    obtain ⟨front, back, hsort, hmore, hfront⟩ :=
      List.mergeSort_cons comesBefore_trans comesBefore_total first later
    have hmem : ∀ other ∈ front ++ back, other ∈ later := by
      intro other hother
      rw [← hmore] at hother
      exact List.mem_mergeSort.1 hother
    have hnil : front = [] := by
      rw [List.eq_nil_iff_forall_not_mem]
      intro other hother
      have hle := hlater other (hmem other (List.mem_append_left _ hother))
      have hnot := hfront other hother
      simp [comesBefore] at hnot
      omega
    subst hnil
    refine ⟨back, hsort, ?_⟩
    intro other hother
    exact hlater other (hmem other hother)
  | cons other earlier ih =>
    obtain ⟨hother, hearlier⟩ := List.forall_mem_cons.1 hearlier
    obtain ⟨rest, hrest, hle⟩ := ih hearlier
    obtain ⟨front, back, hsort, hmore, -⟩ := List.mergeSort_cons comesBefore_trans
      comesBefore_total other (earlier ++ first :: later)
    rw [hrest] at hmore
    cases front with
    | nil =>
      -- The later error would stand before the earlier one.
      have hsorted := List.pairwise_mergeSort comesBefore_trans comesBefore_total
        (other :: (earlier ++ first :: later))
      rw [hsort, List.nil_append, ← List.nil_append back, ← hmore] at hsorted
      have hbad := (List.pairwise_cons.1 hsorted).1 first List.mem_cons_self
      simp [comesBefore] at hbad
      omega
    | cons a front =>
      obtain ⟨rfl, hback⟩ := List.cons.inj hmore
      refine ⟨front ++ other :: back, hsort, ?_⟩
      intro b hb
      rw [List.mem_append, List.mem_cons] at hb
      rcases hb with hb | rfl | hb
      · exact hle b (by rw [hback]; exact List.mem_append_left _ hb)
      · exact Nat.le_of_lt hother
      · exact hle b (by rw [hback]; exact List.mem_append_right _ hb)

end SyntaxError

/-! ## Where errors are -/

/-- The error is one of a lexeme among the given ones. -/
def SyntaxError.LiesIn (lexemes : List Lexeme) (e : SyntaxError) : Prop :=
  ∃ lexeme ∈ lexemes, lexeme.span = e.span

namespace SyntaxError

variable {before after lexemes : List Lexeme} {e other : SyntaxError}

theorem LiesIn.append_left (h : e.LiesIn before) : e.LiesIn (before ++ after) := by
  obtain ⟨lexeme, hmem, hspan⟩ := h
  exact ⟨lexeme, List.mem_append_left _ hmem, hspan⟩

theorem LiesIn.append_right (h : e.LiesIn after) : e.LiesIn (before ++ after) := by
  obtain ⟨lexeme, hmem, hspan⟩ := h
  exact ⟨lexeme, List.mem_append_right _ hmem, hspan⟩

theorem LiesIn.cons (h : e.LiesIn lexemes) (lexeme : Lexeme) : e.LiesIn (lexeme :: lexemes) :=
  @LiesIn.append_right [lexeme] lexemes e h

theorem LiesIn.start_lt (h : e.LiesIn before) (hother : other.LiesIn after)
    (horder : Lexeme.InOrder (before ++ after)) : e.span.start < other.span.start := by
  obtain ⟨a, ha, haspan⟩ := h
  obtain ⟨b, hb, hbspan⟩ := hother
  have hlt := (List.pairwise_append.1 horder).2.2 a ha b hb
  rwa [haspan, hbspan] at hlt

theorem LiesIn.start_le {lexeme : Lexeme} (h : other.LiesIn (lexeme :: lexemes))
    (hspan : lexeme.span = e.span) (horder : Lexeme.InOrder (lexeme :: lexemes)) :
    e.span.start ≤ other.span.start := by
  obtain ⟨b, hb, hbspan⟩ := h
  rw [← hspan, ← hbspan]
  rcases List.mem_cons.1 hb with rfl | hb
  · exact Nat.le_refl _
  · exact Nat.le_of_lt ((List.pairwise_cons.1 horder).1 b hb)

end SyntaxError

/-- The error that a lexeme is, as an error of either family. -/
def Lexeme.syntaxError? (lexeme : Lexeme) : Option SyntaxError := lexeme.error?.map .lexical

theorem Lexeme.span_of_syntaxError? {lexeme : Lexeme} {e : SyntaxError}
    (h : lexeme.syntaxError? = some e) : lexeme.span = e.span := by
  cases lexeme with
  | token t => cases h
  | error _ => cases h; rfl

theorem Lexeme.filterMap_syntaxError? (errors : List LexicalError) :
    (errors.map Lexeme.error).filterMap syntaxError? = errors.map .lexical := by
  induction errors with
  | nil => rfl
  | cons e errors ih => rw [List.map_cons, List.map_cons, ← ih]; rfl

theorem Pass.lexicalErrors_eq_filterMap (entries : List Feed.Entry) :
    lexicalErrors entries =
      (entries.flatMap Feed.Entry.lexemes).filterMap Lexeme.syntaxError? := by
  induction entries with
  | nil => rfl
  | cons entry entries ih =>
    rw [List.flatMap_cons, List.filterMap_append, ← ih, Feed.Entry.lexemes,
      List.filterMap_cons_none rfl, Lexeme.filterMap_syntaxError?]
    rfl

theorem Lexeme.liesIn_of_mem_filterMap {lexemes : List Lexeme} {e : SyntaxError}
    (h : e ∈ lexemes.filterMap syntaxError?) : e.LiesIn lexemes := by
  obtain ⟨lexeme, hmem, hlexeme⟩ := List.mem_filterMap.1 h
  exact ⟨lexeme, hmem, span_of_syntaxError? hlexeme⟩

theorem Lexeme.pairwise_syntaxError? {lexemes : List Lexeme} (h : InOrder lexemes) :
    (lexemes.filterMap syntaxError?).Pairwise fun a b => a.span.start < b.span.start := by
  rw [List.pairwise_filterMap]
  refine h.imp ?_
  intro a b hlt x hx y hy
  rwa [span_of_syntaxError? hx, span_of_syntaxError? hy] at hlt

theorem Pass.liesIn_of_mem_lexicalErrors {entries : List Feed.Entry} {e : SyntaxError}
    (h : e ∈ lexicalErrors entries) : e.LiesIn (entries.flatMap Feed.Entry.lexemes) := by
  rw [lexicalErrors_eq_filterMap] at h
  exact Lexeme.liesIn_of_mem_filterMap h

/-! ## Which errors lead -/

theorem Pass.exists_of_mem_lexicalErrors {entries : List Feed.Entry} {e : SyntaxError}
    (h : e ∈ lexicalErrors entries) : ∃ error, e = .lexical error := by
  obtain ⟨entry, -, he⟩ := List.mem_flatMap.1 h
  obtain ⟨error, -, rfl⟩ := List.mem_map.1 he
  exact ⟨error, rfl⟩

/-- The first lexical error of lexemes leads the others and all errors behind the lexemes. -/
theorem Lexeme.leads_of_filterMap {before after : List Lexeme} {e : SyntaxError}
    {more errors : List SyntaxError} (h : before.filterMap syntaxError? = e :: more)
    (horder : InOrder (before ++ after)) (herrors : ∀ other ∈ errors, other.LiesIn after) :
    e.Leads (before.filterMap syntaxError? ++ errors) := by
  have he : e.LiesIn before := liesIn_of_mem_filterMap (by rw [h]; exact List.mem_cons_self)
  have hpairwise := pairwise_syntaxError? (List.pairwise_append.1 horder).1
  rw [h, List.pairwise_cons] at hpairwise
  refine ⟨[], more ++ errors, by rw [h]; rfl, by simp, ?_⟩
  intro other hother
  rcases List.mem_append.1 hother with hother | hother
  · exact Nat.le_of_lt (hpairwise.1 other hother)
  · exact Nat.le_of_lt (he.start_lt (herrors other hother) horder)

theorem Pass.leads_of_lexicalErrors {entries : List Feed.Entry} {after : List Lexeme}
    {e : SyntaxError} {more errors : List SyntaxError} (h : lexicalErrors entries = e :: more)
    (horder : Lexeme.InOrder (entries.flatMap Feed.Entry.lexemes ++ after))
    (herrors : ∀ other ∈ errors, other.LiesIn after) :
    e.Leads (lexicalErrors entries ++ errors) := by
  rw [lexicalErrors_eq_filterMap] at h ⊢
  exact Lexeme.leads_of_filterMap h horder herrors

/-- An error at a token leads the lexical errors behind the token, even those that were noticed
before it, and all errors that were noticed later and do not lie before it. -/
theorem SyntaxError.leads_of_token {t : Token} {e : SyntaxError} {errors : List LexicalError}
    {after : List Lexeme} {later : List SyntaxError} (ht : t.span = e.span)
    (horder : Lexeme.InOrder (.token t :: (errors.map .error ++ after)))
    (hlater : ∀ other ∈ later, other.LiesIn (.token t :: (errors.map .error ++ after))) :
    e.Leads (errors.map .lexical ++ e :: later) := by
  refine ⟨errors.map .lexical, later, rfl, ?_, ?_⟩
  · intro other hother
    have hat : e.LiesIn [.token t] := ⟨.token t, List.mem_singleton_self _, ht⟩
    rw [← Lexeme.filterMap_syntaxError?] at hother
    exact hat.start_lt (Lexeme.liesIn_of_mem_filterMap hother).append_left horder
  · intro other hother
    exact (hlater other hother).start_le ht horder

/-! ## The failure of a pass -/

namespace Pass

/-- What an attempt read is read by its pass, and what it left is skipped or left. -/
theorem ofAttempt_fields (a : Attempt) :
    (ofAttempt a).1.outcome = a.outcome ∧ (ofAttempt a).1.read = a.read ∧
      (ofAttempt a).1.skipped ++ (ofAttempt a).2 = a.rest := by
  obtain ⟨outcome, read, rest⟩ := a
  unfold ofAttempt
  split
  · simp_all
  · simp_all
  · simp_all

theorem failure_of_ok {p : Pass} {item : Item} (h : p.outcome = .ok item) : p.failure = [] := by
  simp [failure, h]

theorem failure_subset {p : Pass} {g : GrammarError} (h : p.outcome = .error g) :
    p.failure ⊆ [.grammar g] := by
  unfold failure
  rw [h]
  dsimp only
  split <;> simp

/-- Without a lexical error there is none to repeat. -/
theorem failure_of_lexicalErrors_eq_nil {p : Pass} {g : GrammarError} (h : p.outcome = .error g)
    (hnone : lexicalErrors p.read = []) : p.failure = [.grammar g] := by
  have hrepeats : p.repeatsLexicalError = false := by
    unfold repeatsLexicalError
    split
    · next entry _ hlast =>
      have hmem := List.mem_of_getLast? hlast
      simp [lexicalErrors_eq_nil_iff.1 hnone entry hmem]
    · rfl
  simp [failure, h, hrepeats]

/-- The failure of a pass that met a token that cannot come next lies where that token is. -/
theorem failure_liesIn_row {p : Pass} {eof : Token} {rest : List Feed.Entry}
    (houtcome : ∀ g, p.outcome = .error g →
      ∃ expected, g = .unexpectedToken expected (Feed.front eof rest)) :
    ∀ e ∈ p.failure, e.LiesIn (Feed.row eof rest) := by
  intro e he
  obtain ⟨more, hrow⟩ := Feed.row_eq_cons eof rest
  cases hcase : p.outcome with
  | ok item =>
    rw [failure_of_ok hcase] at he
    cases he
  | error g =>
    obtain ⟨expected, rfl⟩ := houtcome g hcase
    obtain rfl := List.mem_singleton.1 (failure_subset hcase he)
    rw [hrow]
    exact ⟨.token (Feed.front eof rest), List.mem_cons_self, rfl⟩

/-- An integer out of range repeats nothing. -/
theorem failure_of_overflow {p : Pass} {digits : String} {span : Span}
    (h : p.outcome = .error (.integerOverflow digits span)) :
    p.failure = [.grammar (.integerOverflow digits span)] := by
  simp [failure, repeatsLexicalError, h]

end Pass

/-! ## Errors lie where their tokens are -/

/-- A pass fails, if at all, at the token behind those that it read, or at the last of them. -/
theorem Pass.outcome_cases (eof : Token) (stage : Stage) (entries : List Feed.Entry) :
    (∀ g, (ofAttempt (attempt eof stage entries)).1.outcome = .error g →
      ∃ expected,
        g = .unexpectedToken expected (Feed.front eof (attempt eof stage entries).rest)) ∨
    ∃ init digits span errors,
      (ofAttempt (attempt eof stage entries)).1.read =
        init ++ [⟨⟨.int digits, span⟩, errors⟩] ∧
      (ofAttempt (attempt eof stage entries)).1.outcome =
        .error (.integerOverflow digits span) := by
  obtain ⟨houtcome, hread, -⟩ := ofAttempt_fields (attempt eof stage entries)
  rw [houtcome, hread]
  generalize hattempt : attempt eof stage entries = a
  obtain ⟨outcome, read, rest⟩ := a
  cases outcome with
  | ok item => exact .inl fun g hg => by cases hg
  | error g =>
    rcases attempt_error_cases hattempt with hg | ⟨init, digits, span, errors, hinit, rfl⟩
    · refine .inl ?_
      rintro g' ⟨⟩
      exact hg
    · exact .inr ⟨init, digits, span, errors, hinit, rfl⟩

theorem failure_liesIn {eof : Token} {stage : Stage} {entries : List Feed.Entry}
    {e : SyntaxError} (h : e ∈ (Pass.ofAttempt (attempt eof stage entries)).1.failure) :
    e.LiesIn (Feed.row eof entries) := by
  have happend := attempt_append eof stage entries
  obtain ⟨-, hread, -⟩ := Pass.ofAttempt_fields (attempt eof stage entries)
  rw [← happend, Feed.row_append, ← hread]
  rcases Pass.outcome_cases eof stage entries with
    hunexpected | ⟨init, digits, span, errors, hinit, houtcome⟩
  · refine SyntaxError.LiesIn.append_right ?_
    exact Pass.failure_liesIn_row hunexpected e h
  · rw [Pass.failure_of_overflow houtcome, List.mem_singleton] at h
    subst h
    refine SyntaxError.LiesIn.append_left ⟨.token ⟨.int digits, span⟩, ?_, rfl⟩
    simp [hinit, Feed.Entry.lexemes]

theorem passes_errors_liesIn {eof : Token} {declared : Bool} {entries : List Feed.Entry} :
    ∀ e ∈ (passes eof declared entries).flatMap Pass.errors, e.LiesIn (Feed.row eof entries) := by
  induction declared, entries using passes.induct eof with
  | case1 => simp
  | case2 declared entry rest step ih =>
    have happend : step.1.entries ++ step.2 = entry :: rest := by
      rw [Pass.ofAttempt_append, attempt_append]
    intro e he
    rw [passes, List.flatMap_cons, List.mem_append] at he
    rcases he with he | he
    · rw [Pass.errors, List.mem_append, List.mem_append] at he
      rcases he with (he | he) | he
      · rw [← happend, Feed.row_append, Pass.entries, List.flatMap_append, List.append_assoc]
        exact (Pass.liesIn_of_mem_lexicalErrors he).append_left
      · exact failure_liesIn he
      · rw [← happend, Feed.row_append, Pass.entries, List.flatMap_append, List.append_assoc]
        exact (Pass.liesIn_of_mem_lexicalErrors he).append_left.append_right
    · rw [← happend, Feed.row_append]
      exact (ih e he).append_right

end DeclLang
