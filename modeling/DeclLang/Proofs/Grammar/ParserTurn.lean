import DeclLang.Proofs.Grammar.Cascade
import DeclLang.Proofs.Grammar.ParserItem

/-!
# One pass of the parser

A pass of the parser reads an item or finds that there is none.  A parser that recovers then
synchronizes: it goes on to the next reserved word, and over the token that stopped the item if it
has consumed nothing so far (`Parser.runs_synchronize`).

`Parser.nextPass` is the pass over the feed that begins at the current token.  A turn of the parser
goes over just that pass and notes just its errors (`Parser.turn_goesOn`), or stops at its first
problem (`Parser.turn_stops`).  Since a pass has at least one token, a turn that does not end the
loop consumes something (`Parser.consumed_lt_of_turn`).
-/

namespace DeclLang

/-- Whether the error is a token that cannot come next. -/
def SyntaxError.isUnexpected : SyntaxError → Bool
  | .grammar (.unexpectedToken _ _) => true
  | _ => false

theorem Pass.skipped_ofAttempt_ok {a : Attempt} {item : Item} (h : a.outcome = .ok item) :
    (ofAttempt a).1.skipped = [] := by
  obtain ⟨outcome, read, rest⟩ := a
  cases h
  rfl

/-- Behind a failed attempt tokens are skipped up to a reserved word, and the first of them whatever
it is if the attempt read none. -/
theorem Pass.skipped_ofAttempt_error {a : Attempt} {g : GrammarError} (h : a.outcome = .error g) :
    (ofAttempt a).1.skipped =
      if a.read = [] then a.rest.take 1 ++ (a.rest.drop 1).takeWhile fun e => !beginsItem e
      else a.rest.takeWhile fun e => !beginsItem e := by
  obtain ⟨outcome, read, rest⟩ := a
  cases h
  cases read with
  | nil => cases rest <;> rfl
  | cons entry read => rfl

namespace Parser

variable {p q : Parser} {entry : Feed.Entry} {rest read : List Feed.Entry}

/-! ## Skipping -/

/-- What an action has read where it has come to a result. -/
theorem Runs.of_ok {α : Type} {x : Parsing α} {outcome : Except GrammarError α} {a : α}
    (h : Runs x p outcome read) (hx : x p = .ok a q) : Took p read q ∧ outcome = .ok a := by
  by_cases hgoes : p.recovers = true ∨ Pass.lexicalErrors read = []
  · obtain ⟨s, htook, hs⟩ := h.goesOn hgoes
    rw [hx] at hs
    cases outcome with
    | ok b =>
      cases hs
      exact ⟨htook, rfl⟩
    | error g => cases hs
  · rw [not_or, Bool.not_eq_true] at hgoes
    obtain ⟨e, errors, herrors⟩ := List.exists_cons_of_ne_nil hgoes.2
    obtain ⟨s, -, hs⟩ := h.stops hgoes.1 e (by rw [herrors]; rfl)
    rw [hx] at hs
    cases hs

theorem length_entries_of_advance {t : Token} (hkind : p.current.kind ≠ .eof)
    (h : advance p = .ok t q) : q.feed.entries.length < p.feed.entries.length := by
  obtain ⟨entry, rest, hentries⟩ := List.exists_cons_of_ne_nil (mt kind_eof_iff.2 hkind)
  rw [((runs_advance hentries).of_ok h).1.entries, List.length_append, List.length_singleton]
  exact Nat.lt_one_add_iff.2 (Nat.le_refl _)

/-- Consumes tokens up to a reserved word or the end of input. -/
def skip : Parsing Unit := fun p =>
  if _ : p.current.kind = .eof ∨ p.current.kind.keyword?.isSome then .ok () p
  else
    match _ : advance p with
    | .ok _ q => skip q
    | .error e q => .error e q
termination_by p => p.feed.entries.length
decreasing_by
  rename_i hgoes _ hadvance
  exact length_entries_of_advance (not_or.1 hgoes).1 hadvance

theorem runs_skip (p : Parser) :
    Runs skip p (.ok ()) (p.feed.entries.takeWhile fun e => !Pass.beginsItem e) := by
  generalize hentries : p.feed.entries = entries
  induction entries generalizing p with
  | nil =>
    refine .of_eq ?_
    rw [skip, dif_pos (.inl (kind_eof_iff.2 hentries))]
    rfl
  | cons entry rest ih =>
    obtain ⟨hkind, hentry, -⟩ := feed_of_cons hentries
    have hbegins : Pass.beginsItem entry = p.current.kind.keyword?.isSome := by
      rw [Pass.beginsItem, hentry]
    by_cases hword : p.current.kind.keyword?.isSome = true
    · rw [List.takeWhile_cons_of_neg (by simp [hbegins, hword])]
      refine .of_eq ?_
      rw [skip, dif_pos (.inr hword)]
      rfl
    · rw [List.takeWhile_cons_of_pos (by simp [hbegins, hword])]
      have hskip : skip p = (advance >>= fun _ => skip) p := by
        rw [skip, dif_neg (not_or.2 ⟨hkind, hword⟩)]
        cases hadvance : advance p with
        | ok t q => rw [bind_of_ok hadvance]
        | error e q => rw [bind_of_error hadvance]
      refine ((runs_advance hentries).bind fun q htook => ?_).congr hskip
      exact ih q (htook.entries_of hentries)

/-- Goes on to where an item may begin.  A token that stopped an item is skipped if nothing has been
consumed since the given number of tokens, so that each pass consumes something. -/
def synchronize (before : Nat) : Parsing Unit := do
  if (← get).consumed = before then
    let _ ← advance
  skip

/-- The entries that a parser goes over to where an item may begin. -/
def skipped (before : Nat) (p : Parser) : List Feed.Entry :=
  if p.consumed = before then
    p.feed.entries.take 1 ++ (p.feed.entries.drop 1).takeWhile fun e => !Pass.beginsItem e
  else p.feed.entries.takeWhile fun e => !Pass.beginsItem e

theorem runs_synchronize (before : Nat) (p : Parser) :
    Runs (synchronize before) p (.ok ()) (p.skipped before) := by
  by_cases h : p.consumed = before
  · have hsync : synchronize before p = (advance >>= fun _ => skip) p := by
      rw [synchronize, get_bind, if_pos h]
    rw [skipped, if_pos h]
    refine ((runs_advance_take p).bind fun q htook => ?_).congr hsync
    rw [← htook.entries_of (List.take_append_drop 1 p.feed.entries).symm]
    exact runs_skip q
  · have hsync : synchronize before p = skip p := by
      rw [synchronize, get_bind, if_neg h]
    rw [skipped, if_neg h]
    exact (runs_skip p).congr hsync

/-! ## One pass -/

/-- One pass of the loop that reads a source file: reads an item, or synchronizes where there should
have been one.  At the end of input there is nothing more to do. -/
def turn (items : List Item) (p : Parser) :
    EStateM.Result SyntaxError Parser (Option (List Item)) :=
  match item (items.any Item.isDeclaration) p with
  | .ok found q => .ok (found.map fun item => items ++ [item]) q
  | .error e q =>
    if q.recovers then
      -- An item that breaks off behind a lexical error would only repeat that.
      let repeats := q.behindError && q.consumed != p.consumed && e.isUnexpected
      let noted := if repeats then q else { q with errors := q.errors ++ [e] }
      (synchronize p.consumed >>= fun _ => pure (some items)) noted
    else .error e q

theorem turn_eof {items : List Item} (h : p.feed.entries = []) : turn items p = .ok none p := by
  rw [turn, item_eof _ h]
  rfl

/-- The attempt at an item that begins at the current token. -/
def nextAttempt (items : List Item) (p : Parser) : Attempt :=
  attempt p.feed.eof (.atItem (items.any Item.isDeclaration)) p.feed.entries

/-- The pass that begins at the current token. -/
def nextPass (items : List Item) (p : Parser) : Pass := (Pass.ofAttempt (p.nextAttempt items)).1

theorem nextPass_fields (items : List Item) (p : Parser) :
    (p.nextPass items).outcome = (p.nextAttempt items).outcome ∧
      (p.nextPass items).read = (p.nextAttempt items).read :=
  ⟨(Pass.ofAttempt_fields _).1, (Pass.ofAttempt_fields _).2.1⟩

/-- `Turned p pass q`: from `p` on, the pass has been gone over, and that has led to `q`. -/
structure Turned (p : Parser) (pass : Pass) (q : Parser) : Prop where
  entries : p.feed.entries = pass.entries ++ q.feed.entries
  eof : q.feed.eof = p.feed.eof
  recovers : q.recovers = p.recovers
  consumed : q.consumed = p.consumed + pass.entries.length
  errors : q.errors = p.errors ++ pass.errors

section Turn

variable {items : List Item} {g : GrammarError}

theorem runs_item_nextPass (items : List Item) (h : p.feed.entries = entry :: rest) :
    Runs (item (items.any Item.isDeclaration)) p ((p.nextPass items).outcome.map some)
      (p.nextPass items).read := by
  rw [(nextPass_fields items p).1, (nextPass_fields items p).2]
  exact runs_item _ h

/-- What a pass skips is what the parser synchronizes over. -/
theorem skipped_of_error (houtcome : (p.nextPass items).outcome = .error g)
    (htook : Took p (p.nextPass items).read q) :
    (p.nextPass items).skipped = q.skipped p.consumed := by
  obtain ⟨hsame, hread⟩ := nextPass_fields items p
  have happend : p.feed.entries = (p.nextPass items).read ++ (p.nextAttempt items).rest := by
    rw [hread, nextAttempt, attempt_append]
  have hnone : (p.nextAttempt items).read = [] ↔ q.consumed = p.consumed := by
    rw [htook.consumed, hread, ← List.length_eq_zero_iff]
    omega
  rw [hsame] at houtcome
  rw [nextPass, Pass.skipped_ofAttempt_error houtcome, skipped, htook.entries_of happend]
  exact if_congr hnone rfl rfl

/-- An item is cut short by a lexical error just where its pass repeats that error. -/
theorem repeats_of_error {pass : Pass} (houtcome : pass.outcome = .error g)
    (htook : Took p pass.read q) :
    (q.behindError && q.consumed != p.consumed && (SyntaxError.grammar g).isUnexpected) =
      pass.repeatsLexicalError := by
  cases g with
  | integerOverflow digits span =>
    rw [Pass.repeatsLexicalError_of_overflow houtcome]
    exact Bool.and_false _
  | unexpectedToken expected found =>
    rw [htook.behindError, htook.consumed]
    rcases List.eq_nil_or_concat' pass.read with hread | ⟨init, last, hread⟩
    · rw [Pass.repeatsLexicalError_of_read_eq_nil hread, hread]
      simp
    · rw [Pass.repeatsLexicalError_of_unexpected houtcome hread, hread]
      simp [SyntaxError.isUnexpected]

theorem turn_of_ok {found : Item} (h : p.feed.entries = entry :: rest)
    (houtcome : (p.nextPass items).outcome = .ok found)
    (hgoes : p.recovers = true ∨ (p.nextPass items).problem? = none) :
    ∃ q, turn items p = .ok (some (items ++ [found])) q ∧ Turned p (p.nextPass items) q := by
  have hruns := runs_item_nextPass items h
  rw [houtcome] at hruns
  obtain ⟨q, htook, hq⟩ := hruns.goesOn (hgoes.imp_right fun hnone =>
    Pass.lexicalErrors_eq_nil_iff.2 (Pass.problem?_eq_none_iff.1 hnone).1)
  have hskipped : (p.nextPass items).skipped = [] :=
    Pass.skipped_ofAttempt_ok ((nextPass_fields items p).1.symm.trans houtcome)
  have hentries : (p.nextPass items).entries = (p.nextPass items).read := by
    rw [Pass.entries, hskipped, List.append_nil]
  refine ⟨q, by rw [turn, hq]; rfl, ?_⟩
  constructor
  · rw [hentries]
    exact htook.entries
  · exact htook.eof
  · exact htook.recovers
  · rw [hentries]
    exact htook.consumed
  · rw [htook.errors, Pass.errors, Pass.failure_of_ok houtcome, hskipped]
    simp [Pass.lexicalErrors]

theorem turn_of_error (h : p.feed.entries = entry :: rest)
    (houtcome : (p.nextPass items).outcome = .error g) (hrecovers : p.recovers = true) :
    ∃ q, turn items p = .ok (some items) q ∧ Turned p (p.nextPass items) q := by
  have hruns := runs_item_nextPass items h
  rw [houtcome] at hruns
  obtain ⟨q, htook, hq⟩ := hruns.goesOn (.inl hrecovers)
  have hrecovers' : q.recovers = true := htook.recovers.trans hrecovers
  have hturn : turn items p = (synchronize p.consumed >>= fun _ => pure (some items))
      { q with errors := q.errors ++ (p.nextPass items).failure } := by
    rw [turn, hq]
    simp only [result, Except.map, if_pos hrecovers', repeats_of_error houtcome htook, Pass.failure,
      houtcome]
    cases (p.nextPass items).repeatsLexicalError <;> simp
  obtain ⟨s, htook', hs⟩ := ((runs_synchronize p.consumed
    { q with errors := q.errors ++ (p.nextPass items).failure }).bind_pure
      fun _ => some items).goesOn (.inl hrecovers')
  have hskipped : skipped p.consumed
      { q with errors := q.errors ++ (p.nextPass items).failure } = (p.nextPass items).skipped :=
    (skipped_of_error houtcome htook).symm
  rw [hskipped] at htook'
  refine ⟨s, hturn.trans hs, ?_⟩
  constructor
  · rw [htook.entries, Pass.entries, List.append_assoc]
    exact congrArg _ htook'.entries
  · exact htook'.eof.trans htook.eof
  · exact htook'.recovers.trans htook.recovers
  · rw [htook'.consumed, Pass.entries, List.length_append, ← Nat.add_assoc, ← htook.consumed]
  · rw [htook'.errors, Pass.errors, htook.errors]
    simp only [List.append_assoc]

theorem turn_stops {e : SyntaxError} (h : p.feed.entries = entry :: rest)
    (hrecovers : p.recovers = false) (hproblem : (p.nextPass items).problem? = some e) :
    ∃ q, turn items p = .error e q := by
  have hruns := runs_item_nextPass items h
  have hfails {q : Parser} (hfast : q.recovers = false)
      (hq : item (items.any Item.isDeclaration) p = .error e q) : turn items p = .error e q := by
    rw [turn, hq]
    simp only [hfast, Bool.false_eq_true, if_false]
  unfold Pass.problem? at hproblem
  split at hproblem
  · next error errors herrors =>
    cases hproblem
    obtain ⟨q, hfast, hq⟩ := hruns.stops hrecovers e (by rw [herrors]; rfl)
    exact ⟨q, hfails hfast hq⟩
  · next g herrors houtcome =>
    cases hproblem
    obtain ⟨q, htook, hq⟩ := hruns.goesOn (.inr herrors)
    rw [houtcome] at hq
    exact ⟨q, hfails (htook.recovers.trans hrecovers) hq⟩
  · cases hproblem

/-- A pass leads to where the next one begins, unless a problem stops the parser. -/
theorem turn_goesOn (h : p.feed.entries = entry :: rest)
    (hgoes : p.recovers = true ∨ (p.nextPass items).problem? = none) :
    ∃ q, turn items p = .ok (some (items ++ (p.nextPass items).item?.toList)) q ∧
      Turned p (p.nextPass items) q := by
  cases houtcome : (p.nextPass items).outcome with
  | ok found =>
    rw [Pass.item?, houtcome]
    exact turn_of_ok h houtcome hgoes
  | error g =>
    have hrecovers : p.recovers = true := hgoes.resolve_right fun hnone => by
      obtain ⟨item, hitem⟩ := (Pass.problem?_eq_none_iff.1 hnone).2
      rw [houtcome] at hitem
      cases hitem
    have hitems : items ++ (p.nextPass items).item?.toList = items := by
      rw [Pass.item?, houtcome]
      exact List.append_nil items
    rw [hitems]
    exact turn_of_error h houtcome hrecovers

/-- A pass that does not end the loop consumes something. -/
theorem consumed_lt_of_turn {more : List Item} (h : turn items p = .ok (some more) q) :
    p.consumed < q.consumed ∧ q.feed.entries.length < p.feed.entries.length := by
  obtain ⟨entry, rest, hentries⟩ : ∃ entry rest, p.feed.entries = entry :: rest := by
    refine List.exists_cons_of_ne_nil fun hnil => ?_
    rw [turn_eof hnil] at h
    cases h
  have hpos : 0 < (p.nextPass items).entries.length := by
    rw [nextPass, nextAttempt, hentries]
    exact List.length_pos_iff.2 (Pass.entries_ofAttempt_ne_nil _ _ _ _)
  have hgoes : p.recovers = true ∨ (p.nextPass items).problem? = none := by
    by_contra hnot
    rw [not_or, Bool.not_eq_true] at hnot
    obtain ⟨e, he⟩ := Option.ne_none_iff_exists'.1 hnot.2
    obtain ⟨s, hs⟩ := turn_stops hentries hnot.1 he
    rw [hs] at h
    cases h
  obtain ⟨s, hs, hturned⟩ := turn_goesOn hentries hgoes
  rw [hs] at h
  cases h
  have hconsumed := hturned.consumed
  have hlength := congrArg List.length hturned.entries
  rw [List.length_append] at hlength
  omega

end Turn

end Parser

end DeclLang
