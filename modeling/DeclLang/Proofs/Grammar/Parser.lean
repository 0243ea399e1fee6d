import DeclLang.Grammar.Parse
import DeclLang.Proofs.Grammar.Stage

/-!
# A parser with one token of lookahead

The passes over a feed see all tokens at once.  A `Parser` sees one: the current token, which it has
pulled from its source and not consumed.  It pulls the next one when it consumes that, and it is
then that the lexical errors between the two come up.  A parser that recovers notes them and goes
on, and one that does not stops at the first.

`Parser.feed` is what a parser has before it, so that a parser stands for a place in a feed.
`Parser.Runs` says what an action makes of such a place: which entries of the feed it reads, and
what comes of it unless a lexical error stops it.  What actions run to composes as the actions do
(`Parser.Runs.bind`).  The actions on single tokens are here: pulling one, consuming one
(`Parser.runs_advance`), and taking one that is expected (`Parser.runs_take`).
-/

namespace DeclLang

/-- A parser in the middle of its work. -/
structure Parser where
  /-- The lexemes that have not been pulled. -/
  source : List Lexeme
  /-- The token that comes next. -/
  current : Token
  /-- The number of tokens that have been consumed. -/
  consumed : Nat
  /-- Whether lexical errors are noted instead of stopping the parser. -/
  recovers : Bool
  /-- Whether a lexical error came up when the current token was pulled. -/
  behindError : Bool
  /-- The errors that have been noted. -/
  errors : List SyntaxError

/-- What a parser does, with the state that it is left in also where it fails. -/
abbrev Parsing := EStateM SyntaxError Parser

namespace Parser

/-! ## Tokens -/

/-- A parser that has done nothing yet. -/
def start (recovers : Bool) (lexemes : List Lexeme) : Parser :=
  ⟨lexemes, .atStart, 0, recovers, false, []⟩

/-- Pulls the next token out of the given lexemes.  Where there is none, the input is taken to end
right behind the current token. -/
def pullFrom (p : Parser) : List Lexeme → EStateM.Result SyntaxError Parser Token
  | [] => .ok p.current.eofAfter { p with source := [] }
  | .token t :: more => .ok t { p with source := more }
  | .error e :: more =>
    if p.recovers then
      pullFrom { p with behindError := true, errors := p.errors ++ [.lexical e] } more
    else .error (.lexical e) { p with source := more }

/-- Pulls the next token. -/
def pull : Parsing Token := fun p => pullFrom { p with behindError := false } p.source

/-- Consumes the current token and gives it.  The end of input is given and not consumed. -/
def advance : Parsing Token := do
  let p ← get
  if p.current.kind = .eof then return p.current
  let next ← pull
  modify fun q => { q with current := next, consumed := q.consumed + 1 }
  return p.current

/-- Consumes the current token if something is made of it.  Otherwise a token of one of the given
classes was expected. -/
def take {α : Type} (expected : List TokenClass) (accept : Token → Option α) : Parsing α := do
  let p ← get
  match accept p.current with
  | some a =>
    let _ ← advance
    return a
  | none => throw (.grammar (.unexpectedToken expected p.current))

/-- Goes on with a result, or fails. -/
def settle {α : Type} : Except GrammarError α → Parsing α
  | .ok a => return a
  | .error g => throw (.grammar g)

/-! ## What a parser has before it -/

/-- What has not been pulled. -/
def ahead (p : Parser) : Feed := .behind p.current p.source

/-- The current token and what has not been pulled. -/
def feed (p : Parser) : Feed := .ofLexemes (.token p.current :: p.source)

theorem feed_of_eof {p : Parser} (h : p.current.kind = .eof) : p.feed = ⟨[], [], p.current⟩ := by
  rw [feed, Feed.ofLexemes, Feed.behind, if_pos h]

theorem feed_of_ne_eof {p : Parser} (h : p.current.kind ≠ .eof) :
    p.feed = ⟨[], ⟨p.current, p.ahead.leading⟩ :: p.ahead.entries, p.ahead.eof⟩ := by
  rw [feed, Feed.ofLexemes, Feed.behind, if_neg h, ahead]

theorem kind_eof_iff {p : Parser} : p.current.kind = .eof ↔ p.feed.entries = [] := by
  by_cases h : p.current.kind = .eof
  · simp [feed_of_eof h, h]
  · simp [feed_of_ne_eof h, h]

/-- The current token is the first of the row. -/
theorem current_eq_front (p : Parser) : p.current = Feed.front p.feed.eof p.feed.entries := by
  by_cases h : p.current.kind = .eof
  · rw [feed_of_eof h, Feed.front]
  · rw [feed_of_ne_eof h, Feed.front]

variable {p q s : Parser} {entry : Feed.Entry} {rest read more : List Feed.Entry}

theorem feed_of_cons (h : p.feed.entries = entry :: rest) :
    p.current.kind ≠ .eof ∧ entry = ⟨p.current, p.ahead.leading⟩ ∧ rest = p.ahead.entries ∧
      p.feed.eof = p.ahead.eof := by
  have hkind : p.current.kind ≠ .eof := fun heof => by
    rw [kind_eof_iff.1 heof] at h
    cases h
  rw [feed_of_ne_eof hkind] at h ⊢
  cases h
  exact ⟨hkind, rfl, rfl, rfl⟩

/-- `Took p read q`: from `p` on, the entries `read` have been consumed, and that has led to `q`. -/
structure Took (p : Parser) (read : List Feed.Entry) (q : Parser) : Prop where
  entries : p.feed.entries = read ++ q.feed.entries
  eof : q.feed.eof = p.feed.eof
  recovers : q.recovers = p.recovers
  consumed : q.consumed = p.consumed + read.length
  errors : q.errors = p.errors ++ Pass.lexicalErrors read
  behindError : q.behindError =
    (read.getLast?.map fun last => !last.errors.isEmpty).getD p.behindError

theorem lexicalErrors_append (read more : List Feed.Entry) :
    Pass.lexicalErrors (read ++ more) = Pass.lexicalErrors read ++ Pass.lexicalErrors more :=
  List.flatMap_append

namespace Took

theorem refl (p : Parser) : Took p [] p where
  entries := rfl
  eof := rfl
  recovers := rfl
  consumed := rfl
  errors := (List.append_nil _).symm
  behindError := rfl

theorem trans (h : Took p read q) (h' : Took q more s) : Took p (read ++ more) s where
  entries := by rw [h.entries, h'.entries, List.append_assoc]
  eof := h'.eof.trans h.eof
  recovers := h'.recovers.trans h.recovers
  consumed := by rw [h'.consumed, h.consumed, List.length_append, Nat.add_assoc]
  errors := by
    rw [h'.errors, h.errors, List.append_assoc, lexicalErrors_append]
  behindError := by
    rw [h'.behindError, h.behindError, List.getLast?_append]
    cases more.getLast? <;> rfl

/-- What was read, and what remains, is told by what there was. -/
theorem entries_of (h : Took p read q) (happend : p.feed.entries = read ++ rest) :
    q.feed.entries = rest := by
  rw [h.entries] at happend
  exact List.append_cancel_left happend

end Took

/-! ## What actions run to -/

section Actions

variable {α β : Type} {x : Parsing α} {f : α → Parsing β} {a : α} {g : GrammarError}

theorem bind_of_ok (h : x p = .ok a q) : (x >>= f) p = f a q := by
  simp only [bind, EStateM.bind, h]

theorem bind_of_error {e : SyntaxError} (h : x p = .error e q) : (x >>= f) p = .error e q := by
  simp only [bind, EStateM.bind, h]

theorem get_bind (f : Parser → Parsing β) (p : Parser) : (get >>= f) p = f p p := rfl

/-- An outcome in the grammar, as what an action leads to. -/
def result (outcome : Except GrammarError α) (q : Parser) : EStateM.Result SyntaxError Parser α :=
  match outcome with
  | .ok a => .ok a q
  | .error g => .error (.grammar g) q

/-- `Runs x p outcome read`: from `p` on, the action `x` reads the entries `read` and comes to
`outcome`, or stops at the first lexical error among them if the parser does not recover. -/
structure Runs (x : Parsing α) (p : Parser) (outcome : Except GrammarError α)
    (read : List Feed.Entry) : Prop where
  goesOn : p.recovers = true ∨ Pass.lexicalErrors read = [] →
    ∃ q, Took p read q ∧ x p = result outcome q
  stops : p.recovers = false → ∀ e ∈ (Pass.lexicalErrors read).head?,
    ∃ q, q.recovers = false ∧ x p = .error e q

/-- An action without lexical errors to come upon. -/
theorem Runs.of_eq {outcome : Except GrammarError α} (h : x p = result outcome p) :
    Runs x p outcome [] where
  goesOn := fun _ => ⟨p, .refl p, h⟩
  stops := fun _ _ he => by cases he

theorem Runs.congr {y : Parsing α} {outcome : Except GrammarError α} (h : Runs y p outcome read)
    (hxy : x p = y p) : Runs x p outcome read where
  goesOn := by
    rw [hxy]
    exact h.goesOn
  stops := by
    rw [hxy]
    exact h.stops

theorem Runs.bind {outcome : Except GrammarError β} (hx : Runs x p (.ok a) read)
    (hf : ∀ q, Took p read q → Runs (f a) q outcome more) :
    Runs (x >>= f) p outcome (read ++ more) where
  goesOn := by
    intro h
    rw [lexicalErrors_append, List.append_eq_nil_iff] at h
    obtain ⟨q, htook, hq⟩ := hx.goesOn (h.imp_right And.left)
    obtain ⟨s, htook', hs⟩ := (hf q htook).goesOn (by
      rw [htook.recovers]
      exact h.imp_right And.right)
    exact ⟨s, htook.trans htook', by rw [bind_of_ok hq, hs]⟩
  stops := by
    intro hrecovers e he
    rw [lexicalErrors_append] at he
    cases hread : Pass.lexicalErrors read with
    | nil =>
      obtain ⟨q, htook, hq⟩ := hx.goesOn (.inr hread)
      rw [hread, List.nil_append] at he
      obtain ⟨s, hfast, hs⟩ := (hf q htook).stops (htook.recovers.trans hrecovers) e he
      exact ⟨s, hfast, by rw [bind_of_ok hq, hs]⟩
    | cons e' errors =>
      rw [hread] at he
      obtain ⟨q, hfast, hq⟩ := hx.stops hrecovers e (by rw [hread]; exact he)
      exact ⟨q, hfast, bind_of_error hq⟩

/-- Behind a failure nothing is done. -/
theorem Runs.bind_error (hx : Runs x p (.error g) read) : Runs (x >>= f) p (.error g) read where
  goesOn := by
    intro h
    obtain ⟨q, htook, hq⟩ := hx.goesOn h
    exact ⟨q, htook, bind_of_error hq⟩
  stops := by
    intro hrecovers e he
    obtain ⟨q, hfast, hq⟩ := hx.stops hrecovers e he
    exact ⟨q, hfast, bind_of_error hq⟩

theorem runs_pure (a : α) (p : Parser) : Runs (pure a) p (.ok a) [] := .of_eq rfl

theorem runs_throw (g : GrammarError) (p : Parser) :
    Runs (throw (.grammar g) : Parsing α) p (.error g) [] := .of_eq rfl

theorem runs_settle (outcome : Except GrammarError α) (p : Parser) :
    Runs (settle outcome) p outcome [] := by
  cases outcome with
  | ok a => exact runs_pure a p
  | error g => exact runs_throw g p

theorem Runs.bind_pure {outcome : Except GrammarError α} (hx : Runs x p outcome read)
    (k : α → β) : Runs (x >>= fun a => pure (k a)) p (outcome.map k) read := by
  cases outcome with
  | ok a =>
    rw [← List.append_nil read]
    exact hx.bind fun q _ => runs_pure (k a) q
  | error g => exact hx.bind_error

end Actions

/-! ## Pulling -/

/-- What pulling notes and what it leaves, unless a lexical error stops it. -/
theorem pullFrom_eq_ok {p : Parser} {lexemes : List Lexeme}
    (h : p.recovers = true ∨ (Feed.behind p.current lexemes).leading = []) :
    ∃ t more,
      pullFrom p lexemes = .ok t
        { p with
          source := more
          behindError := p.behindError || !(Feed.behind p.current lexemes).leading.isEmpty
          errors := p.errors ++ (Feed.behind p.current lexemes).leading.map .lexical } ∧
      Feed.ofLexemes (.token t :: more) = { Feed.behind p.current lexemes with leading := [] } := by
  induction lexemes generalizing p with
  | nil => exact ⟨p.current.eofAfter, [], by simp [pullFrom, Feed.behind], rfl⟩
  | cons lexeme lexemes ih =>
    cases lexeme with
    | token t =>
      have hleading : (Feed.behind p.current (.token t :: lexemes)).leading = [] := by
        unfold Feed.behind
        split <;> rfl
      refine ⟨t, lexemes, by simp [pullFrom, hleading], ?_⟩
      rw [Feed.ofLexemes, Feed.behind, Feed.behind]
      split <;> rfl
    | error e =>
      have hrecovers : p.recovers = true := h.resolve_right (List.cons_ne_nil _ _)
      obtain ⟨t, more, hpull, hmore⟩ :=
        @ih { p with behindError := true, errors := p.errors ++ [.lexical e] } (.inl hrecovers)
      refine ⟨t, more, ?_, hmore⟩
      rw [pullFrom, if_pos hrecovers, hpull]
      simp [Feed.behind]

theorem pullFrom_eq_error {p : Parser} {lexemes : List Lexeme} (hrecovers : p.recovers = false)
    {e : LexicalError} (h : e ∈ (Feed.behind p.current lexemes).leading.head?) :
    ∃ q, q.recovers = false ∧ pullFrom p lexemes = .error (.lexical e) q := by
  cases lexemes with
  | nil => cases h
  | cons lexeme lexemes =>
    cases lexeme with
    | token t =>
      unfold Feed.behind at h
      split at h <;> cases h
    | error e' =>
      cases h
      exact ⟨{ p with source := lexemes }, hrecovers, by simp [pullFrom, hrecovers]⟩

/-- `Pulled p t q`: the token `t` has been pulled, and that has led from `p` to `q`. -/
structure Pulled (p : Parser) (t : Token) (q : Parser) : Prop where
  feed : ({ q with current := t } : Parser).feed = { p.ahead with leading := [] }
  consumed : q.consumed = p.consumed
  recovers : q.recovers = p.recovers
  behindError : q.behindError = !p.ahead.leading.isEmpty
  errors : q.errors = p.errors ++ p.ahead.leading.map .lexical

theorem pull_eq_ok (h : p.recovers = true ∨ p.ahead.leading = []) :
    ∃ t q, pull p = .ok t q ∧ Pulled p t q := by
  obtain ⟨t, more, hpull, hfeed⟩ := pullFrom_eq_ok (p := { p with behindError := false }) h
  exact ⟨t, _, hpull, hfeed, rfl, rfl, rfl, rfl⟩

theorem pull_eq_error (hrecovers : p.recovers = false) {e : LexicalError}
    (h : e ∈ p.ahead.leading.head?) : ∃ q, q.recovers = false ∧ pull p = .error (.lexical e) q :=
  pullFrom_eq_error (p := { p with behindError := false }) hrecovers h

/-! ## Consuming -/

/-- Consuming the end of input changes nothing. -/
theorem advance_eof (h : p.current.kind = .eof) : advance p = .ok p.current p := by
  rw [advance, get_bind, if_pos h]
  rfl

theorem advance_of_pull {next : Token} (h : p.current.kind ≠ .eof) (hpull : pull p = .ok next q) :
    advance p = .ok p.current { q with current := next, consumed := q.consumed + 1 } := by
  rw [advance, get_bind, if_neg h]
  exact bind_of_ok hpull

theorem advance_of_pull_error {e : SyntaxError} (h : p.current.kind ≠ .eof)
    (hpull : pull p = .error e q) : advance p = .error e q := by
  rw [advance, get_bind, if_neg h]
  exact bind_of_error hpull

/-- Consuming a token that is not the end of input. -/
theorem runs_advance (h : p.feed.entries = entry :: rest) :
    Runs advance p (.ok p.current) [entry] := by
  obtain ⟨hkind, hentry, hrest, heof⟩ := feed_of_cons h
  have herrors : Pass.lexicalErrors [entry] = p.ahead.leading.map .lexical := by
    rw [hentry, Pass.lexicalErrors, List.flatMap_singleton]
  constructor
  · intro hgoes
    rw [herrors, List.map_eq_nil_iff] at hgoes
    obtain ⟨next, q, hpull, hpulled⟩ := pull_eq_ok hgoes
    refine ⟨_, ?_, advance_of_pull hkind hpull⟩
    constructor
    · rw [h, hrest]
      exact congrArg (entry :: ·) (congrArg Feed.entries hpulled.feed).symm
    · rw [heof]
      exact (congrArg Feed.eof hpulled.feed :)
    · exact hpulled.recovers
    · exact congrArg (· + 1) hpulled.consumed
    · rw [herrors]
      exact hpulled.errors
    · rw [hentry]
      exact hpulled.behindError
  · intro hrecovers e he
    rw [herrors, List.head?_map] at he
    obtain ⟨error, herror, rfl⟩ := Option.map_eq_some_iff.1 he
    obtain ⟨q, hfast, hpull⟩ := pull_eq_error hrecovers herror
    exact ⟨q, hfast, advance_of_pull_error hkind hpull⟩

/-- Consuming the current token, whatever it is. -/
theorem runs_advance_take (p : Parser) :
    Runs advance p (.ok p.current) (p.feed.entries.take 1) := by
  cases h : p.feed.entries with
  | nil => exact .of_eq (advance_eof (kind_eof_iff.2 h))
  | cons entry rest => exact runs_advance h

/-! ## Taking a token of an item -/

section Take

variable {α : Type} {expected : List TokenClass} {accept : Token → Option α} {a : α}

theorem runs_take (h : p.feed.entries = entry :: rest) (haccept : accept p.current = some a) :
    Runs (take expected accept) p (.ok a) [entry] := by
  have htake : take expected accept p = (advance >>= fun _ => pure a) p := by
    rw [take, get_bind, haccept]
  exact ((runs_advance h).bind fun q _ => runs_pure a q).congr htake

theorem runs_take_refused (haccept : accept p.current = none) :
    Runs (take expected accept) p (.error (.unexpectedToken expected p.current)) [] := by
  refine .of_eq ?_
  rw [take, get_bind, haccept]
  rfl

end Take

end Parser

end DeclLang
