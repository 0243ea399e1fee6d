import DeclLang.Proofs.Grammar.ParserTurn

/-!
# Recovery makes progress

The parser reads a source turn by turn, and `Parser.loop` ends because each turn before the last
consumes something.  A turn goes over the next of the passes that lie ahead
(`Parser.turn_of_passesAhead`), so the loop goes over all of them, and one more turn finds the end
of input (`Parser.loop_goesOn`).  A parser that does not recover stops at the first problem of a
pass (`Parser.loop_stops`).

Hence one token of lookahead comes to the same as seeing the whole feed: `Parser.parse_eq` and
`Parser.parseAll_eq`.  `recovery_makes_progress` counts: nothing stops a parser that recovers, and
the tokens before the end of input bound its passes and the errors that are not lexical.
-/

namespace DeclLang

/-! ## How many passes and failures there are -/

/-- Each pass has a token of its own. -/
theorem length_passes_le (eof : Token) (declared : Bool) (entries : List Feed.Entry) :
    (passes eof declared entries).length ≤ entries.length := by
  induction declared, entries using passes.induct eof with
  | case1 => simp
  | case2 declared entry rest step ih =>
    have happend : step.1.entries ++ step.2 = entry :: rest := by
      rw [Pass.ofAttempt_append, attempt_append]
    have hlength := congrArg List.length happend
    have hpos : 0 < step.1.entries.length :=
      List.length_pos_iff.2 (Pass.entries_ofAttempt_ne_nil _ _ _ _)
    have hcons : passes eof declared (entry :: rest) =
        step.1 :: passes eof (declared || step.1.declares) step.2 := by rw [passes]
    rw [List.length_append] at hlength
    rw [hcons, List.length_cons]
    omega

theorem Pass.length_failure_le (p : Pass) : p.failure.length ≤ 1 := by
  unfold failure
  split
  · split <;> simp
  · simp

theorem length_flatMap_failure_le (ps : List Pass) :
    (ps.flatMap Pass.failure).length ≤ ps.length := by
  induction ps with
  | nil => exact Nat.le_refl 0
  | cons p ps ih =>
    have hfirst := p.length_failure_le
    rw [List.flatMap_cons, List.length_append, List.length_cons]
    omega

/-- A feed has the tokens before the first end of input. -/
theorem Feed.length_entries_ofLexemes (lexemes : List Lexeme) :
    (ofLexemes lexemes).entries.length = (beforeEof (lexemes.filterMap Lexeme.token?)).length := by
  have hbare := congrArg Feed.entries (behind_filterMap_token? .atStart lexemes)
  rw [(behind_tokens _ _).2] at hbare
  have hlength := congrArg List.length hbare
  rw [List.length_map] at hlength
  rw [hlength, bare, List.length_map]
  rfl

namespace Parser

variable {p q : Parser} {items : List Item} {ps : List Pass} {entry : Feed.Entry}
  {rest : List Feed.Entry}

/-! ## The loop -/

/-- Reads items up to the end of input, and counts the passes. -/
def loop (turns : Nat) (items : List Item) : Parsing (Nat × List Item) := fun p =>
  match _ : turn items p with
  | .ok none q => .ok (turns + 1, items) q
  | .ok (some more) q => loop (turns + 1) more q
  | .error e q => .error e q
termination_by p => p.feed.entries.length
decreasing_by
  rename_i h
  exact (consumed_lt_of_turn h).2

theorem loop_of_none {turns : Nat} (h : turn items p = .ok none q) :
    loop turns items p = .ok (turns + 1, items) q := by
  rw [loop]
  split <;> simp_all

theorem loop_of_some {turns : Nat} {more : List Item} (h : turn items p = .ok (some more) q) :
    loop turns items p = loop (turns + 1) more q := by
  rw [loop]
  split <;> simp_all

theorem loop_of_error {turns : Nat} {e : SyntaxError} (h : turn items p = .error e q) :
    loop turns items p = .error e q := by
  rw [loop]
  split <;> simp_all

/-- The passes over what the parser has before it. -/
def passesAhead (items : List Item) (p : Parser) : List Pass :=
  passes p.feed.eof (items.any Item.isDeclaration) p.feed.entries

theorem passesAhead_eq_nil_iff : p.passesAhead items = [] ↔ p.feed.entries = [] := by
  unfold passesAhead
  cases p.feed.entries with
  | nil => simp
  | cons entry rest =>
    rw [passes]
    simp

theorem exists_cons_of_passesAhead {pass : Pass} (h : p.passesAhead items = pass :: ps) :
    ∃ entry rest, p.feed.entries = entry :: rest := by
  refine List.exists_cons_of_ne_nil fun hnil => ?_
  rw [passesAhead_eq_nil_iff.2 hnil] at h
  cases h

theorem passesAhead_eq_cons (h : p.feed.entries = entry :: rest) :
    p.passesAhead items = p.nextPass items :: passes p.feed.eof
      (items.any Item.isDeclaration || (p.nextPass items).declares)
      (Pass.ofAttempt (p.nextAttempt items)).2 := by
  rw [passesAhead, nextPass, nextAttempt, h, passes]

/-- Behind the next pass come the others. -/
theorem passesAhead_of_turned (h : p.feed.entries = entry :: rest)
    (hturned : Turned p (p.nextPass items) q) :
    p.passesAhead items =
      p.nextPass items :: q.passesAhead (items ++ (p.nextPass items).item?.toList) := by
  have happend : (p.nextPass items).entries ++ (Pass.ofAttempt (p.nextAttempt items)).2 =
      (p.nextPass items).entries ++ q.feed.entries := by
    rw [← hturned.entries, nextPass, Pass.ofAttempt_append, nextAttempt, attempt_append]
  have hdeclared : (items ++ (p.nextPass items).item?.toList).any Item.isDeclaration =
      (items.any Item.isDeclaration || (p.nextPass items).declares) := by
    rw [List.any_append, Pass.item?, Pass.declares]
    cases (p.nextPass items).outcome with
    | ok item => exact congrArg _ (Bool.or_false _)
    | error g => rfl
  rw [passesAhead_eq_cons h, passesAhead, hturned.eof, hdeclared, List.append_cancel_left happend]

/-- One turn of the loop, where there is a pass to go over. -/
theorem turn_of_passesAhead {pass : Pass} (hps : p.passesAhead items = pass :: ps)
    (hgoes : p.recovers = true ∨ pass.problem? = none) :
    ∃ q, turn items p = .ok (some (items ++ pass.item?.toList)) q ∧ Turned p pass q ∧
      q.passesAhead (items ++ pass.item?.toList) = ps := by
  obtain ⟨entry, rest, hentries⟩ := exists_cons_of_passesAhead hps
  rw [passesAhead_eq_cons hentries] at hps
  obtain ⟨rfl, -⟩ := List.cons.inj hps
  obtain ⟨q, hq, hturned⟩ := turn_goesOn hentries hgoes
  rw [← passesAhead_eq_cons hentries, passesAhead_of_turned hentries hturned] at hps
  exact ⟨q, hq, hturned, (List.cons.inj hps).2⟩

/-- The loop goes over the passes, and finds the end of input in one more turn. -/
theorem loop_goesOn (turns : Nat) (items : List Item)
    (hgoes : p.recovers = true ∨ ∀ pass ∈ p.passesAhead items, pass.problem? = none) :
    ∃ q, loop turns items p = .ok (turns + (p.passesAhead items).length + 1,
        items ++ (p.passesAhead items).filterMap Pass.item?) q ∧
      q.consumed = p.consumed + p.feed.entries.length ∧
      q.errors = p.errors ++ (p.passesAhead items).flatMap Pass.errors := by
  generalize hps : p.passesAhead items = ps at hgoes
  induction ps generalizing p items turns with
  | nil =>
    have hnil := passesAhead_eq_nil_iff.1 hps
    exact ⟨p, by simp [loop_of_none (turn_eof hnil)], by simp [hnil], by simp⟩
  | cons pass ps ih =>
    rw [List.forall_mem_cons] at hgoes
    obtain ⟨q, hturn, hturned, hmore⟩ := turn_of_passesAhead hps (hgoes.imp_right And.left)
    obtain ⟨s, hloop, hconsumed, herrors⟩ := ih (turns + 1) _ hmore (by
      rw [hturned.recovers]
      exact hgoes.imp_right And.right)
    refine ⟨s, ?_, ?_, ?_⟩
    · rw [loop_of_some hturn, hloop]
      have hitems : (items ++ pass.item?.toList) ++ ps.filterMap Pass.item? =
          items ++ (pass :: ps).filterMap Pass.item? := by
        rw [List.append_assoc, List.filterMap_cons]
        cases pass.item? <;> rfl
      rw [hitems, List.length_cons, Nat.add_right_comm turns 1, Nat.add_assoc turns]
    · rw [hconsumed, hturned.consumed, hturned.entries, List.length_append, Nat.add_assoc]
    · rw [herrors, hturned.errors, List.flatMap_cons, List.append_assoc]

/-- A parser that does not recover stops at the first problem of a pass. -/
theorem loop_stops (turns : Nat) {e : SyntaxError} (hrecovers : p.recovers = false)
    (h : (p.passesAhead items).findSome? Pass.problem? = some e) :
    ∃ q, loop turns items p = .error e q := by
  generalize hps : p.passesAhead items = ps at h
  induction ps generalizing p items turns with
  | nil => cases h
  | cons pass ps ih =>
    cases hproblem : pass.problem? with
    | none =>
      obtain ⟨q, hturn, hturned, hmore⟩ := turn_of_passesAhead hps (.inr hproblem)
      rw [List.findSome?_cons, hproblem] at h
      rw [loop_of_some hturn]
      exact ih (turns + 1) (hturned.recovers.trans hrecovers) hmore h
    | some problem =>
      rw [List.findSome?_cons, hproblem] at h
      cases h
      obtain ⟨entry, rest, hentries⟩ := exists_cons_of_passesAhead hps
      rw [passesAhead_eq_cons hentries] at hps
      obtain ⟨rfl, -⟩ := List.cons.inj hps
      obtain ⟨q, hturn⟩ := turn_stops hentries hrecovers hproblem
      exact ⟨q, loop_of_error hturn⟩

/-! ## Source files -/

/-- Reads a source file.  The first token has to be pulled before there is a current one. -/
def sourceFile : Parsing (Nat × SourceFile) := do
  let first ← pull
  modify fun p => { p with current := first }
  let (turns, items) ← loop 0 []
  return (turns, .ofItems items)

theorem sourceFile_of_pull {first : Token} (h : pull p = .ok first q) :
    sourceFile p = (loop 0 [] >>= fun result => pure (result.1, .ofItems result.2))
      { q with current := first } := by
  rw [sourceFile, bind_of_ok h]
  rfl

theorem sourceFile_of_pull_error {e : SyntaxError} (h : pull p = .error e q) :
    sourceFile p = .error e q := bind_of_error h

variable {lexemes : List Lexeme}

theorem passesAhead_of_pulled {recovers : Bool} {first : Token}
    (h : Pulled (start recovers lexemes) first q) :
    passesAhead [] { q with current := first } = (Feed.ofLexemes lexemes).passes := by
  rw [passesAhead, h.feed]
  rfl

/-- A source is read as the passes over its feed go, with one more turn for its end. -/
theorem sourceFile_goesOn (recovers : Bool) (lexemes : List Lexeme)
    (hgoes : recovers = true ∨ (Feed.ofLexemes lexemes).problem? = none) :
    ∃ q, sourceFile (start recovers lexemes) =
        .ok ((Feed.ofLexemes lexemes).passes.length + 1, (Feed.ofLexemes lexemes).sourceFile) q ∧
      q.consumed = (Feed.ofLexemes lexemes).entries.length ∧
      q.errors = (Feed.ofLexemes lexemes).errors := by
  obtain ⟨first, q, hpull, hpulled⟩ := pull_eq_ok (p := start recovers lexemes)
    (hgoes.imp_right fun hnone => (Feed.problem?_eq_none_iff.1 hnone).1)
  have hpasses := passesAhead_of_pulled hpulled
  obtain ⟨s, hloop, hconsumed, herrors⟩ := loop_goesOn (p := { q with current := first }) 0
    [] (by
      rw [hpasses]
      exact hgoes.imp hpulled.recovers.trans fun hnone => (Feed.problem?_eq_none_iff.1 hnone).2)
  rw [hpasses] at hloop herrors
  refine ⟨s, ?_, ?_, ?_⟩
  · rw [sourceFile_of_pull hpull, bind_of_ok hloop, Nat.zero_add]
    rfl
  · rw [hconsumed, hpulled.feed, hpulled.consumed]
    exact Nat.zero_add _
  · rw [herrors, hpulled.errors]
    rfl

theorem sourceFile_stops {e : SyntaxError} (h : (Feed.ofLexemes lexemes).problem? = some e) :
    ∃ q, sourceFile (start false lexemes) = .error e q := by
  unfold Feed.problem? at h
  split at h
  · next error errors hleading =>
    cases h
    obtain ⟨q, -, hpull⟩ := pull_eq_error (p := start false lexemes) (e := error) rfl (by
      rw [show (start false lexemes).ahead.leading = error :: errors from hleading]
      rfl)
    exact ⟨q, sourceFile_of_pull_error hpull⟩
  · next hleading =>
    obtain ⟨first, q, hpull, hpulled⟩ := pull_eq_ok (p := start false lexemes) (.inr hleading)
    rw [← passesAhead_of_pulled hpulled] at h
    obtain ⟨s, hloop⟩ := loop_stops (p := { q with current := first }) 0 hpulled.recovers h
    exact ⟨s, by rw [sourceFile_of_pull hpull, bind_of_error hloop]⟩

/-- Reads a source file, or finds its first problem. -/
def parse (lexemes : List Lexeme) : Except SyntaxError SourceFile :=
  match sourceFile (start false lexemes) with
  | .ok (_, file) _ => .ok file
  | .error e _ => .error e

/-- Reads a source file, or finds all its errors.  They are sorted by where they begin. -/
def parseAll (lexemes : List Lexeme) : Except (List SyntaxError) SourceFile :=
  let sort (errors : List SyntaxError) := errors.mergeSort fun a b => a.span.start ≤ b.span.start
  match sourceFile (start true lexemes) with
  | .ok (_, file) p => if p.errors.isEmpty then .ok file else .error (sort p.errors)
  | .error e p => .error (sort (p.errors ++ [e]))

/-- One token of lookahead is enough to stop at the first problem. -/
theorem parse_eq (lexemes : List Lexeme) : parse lexemes = (Feed.ofLexemes lexemes).parse := by
  rw [parse, Feed.parse]
  cases hproblem : (Feed.ofLexemes lexemes).problem? with
  | none =>
    obtain ⟨q, hq, -⟩ := sourceFile_goesOn false lexemes (.inr hproblem)
    rw [hq]
  | some e =>
    obtain ⟨q, hq⟩ := sourceFile_stops hproblem
    rw [hq]

/-- One token of lookahead is enough to find all errors. -/
theorem parseAll_eq (lexemes : List Lexeme) :
    parseAll lexemes = (Feed.ofLexemes lexemes).parseAll := by
  obtain ⟨q, hq, -, herrors⟩ := sourceFile_goesOn true lexemes (.inl rfl)
  unfold parseAll Feed.parseAll
  rw [hq]
  dsimp only
  rw [herrors]
  cases (Feed.ofLexemes lexemes).errors with
  | nil => rfl
  | cons error errors => rfl

/-! ## Progress -/

/-- Consuming gives the current token, and it counts only if it is not the end of input. -/
theorem advance_cases {t : Token} (h : advance p = .ok t q) :
    t = p.current ∧ (t.kind = .eof ∧ q = p ∨ t.kind ≠ .eof ∧ q.consumed = p.consumed + 1) := by
  by_cases hkind : p.current.kind = .eof
  · rw [advance_eof hkind] at h
    cases h
    exact ⟨rfl, .inl ⟨hkind, rfl⟩⟩
  · obtain ⟨entry, rest, hentries⟩ := List.exists_cons_of_ne_nil (mt kind_eof_iff.2 hkind)
    obtain ⟨htook, houtcome⟩ := (runs_advance hentries).of_ok h
    cases houtcome
    exact ⟨rfl, .inr ⟨hkind, htook.consumed⟩⟩

/-- Nothing stops a turn of a parser that recovers. -/
theorem exists_turn (hrecovers : p.recovers = true) (items : List Item) :
    ∃ more q, turn items p = .ok more q := by
  cases hentries : p.feed.entries with
  | nil => exact ⟨none, p, turn_eof hentries⟩
  | cons entry rest =>
    obtain ⟨q, hq, -⟩ := turn_goesOn hentries (.inl hrecovers)
    exact ⟨_, q, hq⟩

end Parser

/-- Recovery goes on whatever the source holds and wherever its tokens are said to be, and each pass
but the last consumes something: the end of input is never consumed, so the tokens before it bound
the number of passes and the number of errors that are not lexical.  No token is too far behind for
an end of input to be made up where the source has none: the column of that wraps around. -/
theorem recovery_makes_progress (lexemes : List Lexeme) :
    (∀ p : Parser, p.recovers = true →
      (∃ t q, Parser.pull p = .ok t q) ∧ (∃ t q, Parser.advance p = .ok t q) ∧
      (∀ before, ∃ q, Parser.synchronize before p = .ok () q) ∧
      ∀ items, ∃ more q, Parser.turn items p = .ok more q) ∧
    (∀ p q items more, Parser.turn items p = .ok (some more) q → p.consumed + 1 ≤ q.consumed) ∧
    (∀ p q t, Parser.advance p = .ok t q →
      t = p.current ∧ (t.kind = .eof ∧ q = p ∨ t.kind ≠ .eof ∧ q.consumed = p.consumed + 1)) ∧
    ∃ turns file final,
      Parser.sourceFile (.start true lexemes) = .ok (turns, file) final ∧
      final.consumed = (beforeEof (lexemes.filterMap Lexeme.token?)).length ∧
      turns ≤ (beforeEof (lexemes.filterMap Lexeme.token?)).length + 1 ∧
      (final.errors.filter SyntaxError.isGrammar).length ≤
        (beforeEof (lexemes.filterMap Lexeme.token?)).length ∧
      Parser.parseAll lexemes = (Feed.ofLexemes lexemes).parseAll := by
  refine ⟨fun p hrecovers => ⟨?_, ?_, fun before => ?_, Parser.exists_turn hrecovers⟩,
    fun p q items more h => (Parser.consumed_lt_of_turn h).1, fun p q t => Parser.advance_cases, ?_⟩
  · obtain ⟨t, q, hpull, -⟩ := Parser.pull_eq_ok (.inl hrecovers)
    exact ⟨t, q, hpull⟩
  · obtain ⟨q, -, hadvance⟩ := (Parser.runs_advance_take p).goesOn (.inl hrecovers)
    exact ⟨p.current, q, hadvance⟩
  · obtain ⟨q, -, hsync⟩ := (Parser.runs_synchronize before p).goesOn (.inl hrecovers)
    exact ⟨q, hsync⟩
  · obtain ⟨final, hfinal, hconsumed, herrors⟩ :=
      Parser.sourceFile_goesOn true lexemes (.inl rfl)
    have hpasses := length_passes_le (Feed.ofLexemes lexemes).eof false
      (Feed.ofLexemes lexemes).entries
    have hfailures := length_flatMap_failure_le (Feed.ofLexemes lexemes).passes
    rw [← Feed.length_entries_ofLexemes]
    refine ⟨_, _, final, hfinal, hconsumed, Nat.succ_le_succ hpasses, ?_,
      Parser.parseAll_eq lexemes⟩
    rw [herrors, Feed.filter_isGrammar_errors]
    exact hfailures.trans hpasses

end DeclLang
