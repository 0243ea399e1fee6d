import DeclLang.Proofs.Lexical.Layout

/-!
# All readers see one stream of lexemes

A source text can be taken apart in several ways: a cursor can be asked for one lexeme after
another, with two ways of asking that can be mixed at will, and all tokens or all errors can be had
at once.  Behind all of them there is one stream, which goes up to the first end of input.

* `Cursor.Serves` is the state of a cursor after any history: what it has still to answer with, and
  the end of input that it stays at for good.  One question takes one lexeme off the stream
  (`Cursor.Serves.ask`) or finds the stream used up (`Cursor.Serves.ask_nil`), however it is asked,
  and `Cursor.Serves.answers_eq` is what this comes to for any row of questions.
* `lex_eq_ok_iff` and its companions read off the stream what `lex` and `lexAll` give.

`one_stream` puts the two together.
-/

namespace DeclLang

/-! ## All tokens or all errors -/

namespace Lexeme

theorem eq_map_token {lexemes : List Lexeme} (h : lexemes.filterMap error? = []) :
    lexemes = (lexemes.filterMap token?).map .token := by
  induction lexemes with
  | nil => rfl
  | cons lexeme lexemes ih =>
    cases lexeme with
    | token t => exact congrArg (.token t :: ·) (ih h)
    | error e => cases h

theorem filterMap_error?_map_token (tokens : List Token) :
    (tokens.map token).filterMap error? = [] := by
  rw [List.filterMap_map, List.filterMap_eq_nil_iff]
  exact fun _ _ => rfl

theorem filterMap_token?_map_token (tokens : List Token) :
    (tokens.map token).filterMap token? = tokens := by
  rw [List.filterMap_map]
  exact List.filterMap_some

/-- The first error of a row has only tokens before it. -/
theorem findSome?_error?_eq_some_iff {lexemes : List Lexeme} {e : LexicalError} :
    lexemes.findSome? error? = some e ↔
      ∃ (before : List Token) (after : List Lexeme),
        lexemes = before.map .token ++ .error e :: after := by
  constructor
  · intro h
    obtain ⟨before, lexeme, after, rfl, hlexeme, hbefore⟩ := List.findSome?_eq_some_iff.1 h
    cases lexeme with
    | token t => cases hlexeme
    | error found =>
      cases hlexeme
      exact ⟨_, after, congrArg (· ++ _) (eq_map_token (List.filterMap_eq_nil_iff.2 hbefore))⟩
  · rintro ⟨before, after, rfl⟩
    have hbefore : (before.map token).findSome? error? = none := by
      rw [List.findSome?_eq_none_iff, ← List.filterMap_eq_nil_iff]
      exact filterMap_error?_map_token before
    rw [List.findSome?_append, hbefore]
    rfl

end Lexeme

section Lex

variable {source : String} {tokens : List Token} {e : LexicalError} {errors : List LexicalError}

/-- Stopping at the first error is finding whether there is any among all of them. -/
theorem lex_eq_match (source : String) :
    lex source = match lexicalErrors source with
      | [] => .ok (DeclLang.tokens source)
      | e :: _ => .error e := by
  rw [lex, ← List.head?_filterMap, ← lexicalErrors]
  cases lexicalErrors source <;> rfl

theorem lex_eq_error_iff :
    lex source = .error e ↔ (Lexeme.ofString source).findSome? Lexeme.error? = some e := by
  unfold lex
  split
  · next h => simp [h]
  · next h => simp [h]

theorem lexAll_eq_ok_iff :
    lexAll source = .ok tokens ↔ Lexeme.ofString source = tokens.map .token := by
  unfold lexAll
  constructor
  · intro h
    split at h
    · next hnone =>
      cases h
      exact Lexeme.eq_map_token hnone
    · cases h
  · intro h
    have hnone : lexicalErrors source = [] := by
      rw [lexicalErrors, h, Lexeme.filterMap_error?_map_token]
    rw [hnone, DeclLang.tokens, h, Lexeme.filterMap_token?_map_token]

theorem lexAll_eq_error_iff :
    lexAll source = .error errors ↔ errors ≠ [] ∧ lexicalErrors source = errors := by
  rw [lexAll]
  cases lexicalErrors source with
  | nil =>
    refine iff_of_false nofun ?_
    rintro ⟨hne, rfl⟩
    exact hne rfl
  | cons first more =>
    constructor
    · intro h
      cases h
      exact ⟨List.cons_ne_nil _ _, rfl⟩
    · rintro ⟨-, rfl⟩
      rfl

/-- Stopping at the first error and collecting all of them come to the same where there is none. -/
theorem lex_eq_ok_iff : lex source = .ok tokens ↔ Lexeme.ofString source = tokens.map .token := by
  rw [← lexAll_eq_ok_iff, lex_eq_match, lexAll]
  cases lexicalErrors source with
  | nil => simp only [Except.ok.injEq]
  | cons first more => exact iff_of_false nofun nofun

/-- Stopping at the first error gives the first of all errors. -/
theorem lex_eq_error_iff_lexAll :
    lex source = .error e ↔ ∃ more, lexAll source = .error (e :: more) := by
  rw [lex_eq_match, lexAll]
  cases lexicalErrors source with
  | nil => simp
  | cons first more => simp

end Lex

namespace Cursor

/-! ## Asking again and again -/

/-- The two ways of asking a cursor. -/
inductive Question where
  | next
  | read
deriving DecidableEq

/-- The answer to a question, and the cursor that has given it. -/
def ask (cursor : Cursor) : Question → Option Lexeme × Cursor
  | .next => cursor.next?
  | .read => (some cursor.read.1, cursor.read.2)

/-- The answers of a cursor to questions that it is asked one after another. -/
def answers (cursor : Cursor) : List Question → List (Option Lexeme)
  | [] => []
  | question :: more => (cursor.ask question).1 :: (cursor.ask question).2.answers more

/-- What a question comes to once the stream is used up, with the end of input that it ended
with. -/
def Question.atEnd (eof : Token) : Question → Option Lexeme
  | next => none
  | read => some (.token eof)

/-- `cursor.ReadsToEnd lexemes`: reading from the cursor over and over gives these lexemes, and the
last of them is the first end of input. -/
inductive ReadsToEnd : Cursor → List Lexeme → Prop where
  | last {cursor : Cursor} (h : isEnd cursor.read.1 = true) : ReadsToEnd cursor [cursor.read.1]
  | more {cursor : Cursor} {lexemes : List Lexeme} (h : isEnd cursor.read.1 = false)
      (later : ReadsToEnd cursor.read.2 lexemes) :
      ReadsToEnd cursor (cursor.read.1 :: lexemes)

/-- Reading up to the end comes to the same whenever it is done. -/
theorem ReadsToEnd.unique {cursor : Cursor} {lexemes others : List Lexeme}
    (h : cursor.ReadsToEnd lexemes) (hothers : cursor.ReadsToEnd others) : others = lexemes := by
  induction h generalizing others with
  | last h =>
    cases hothers with
    | last => rfl
    | more h' => rw [h] at h'; cases h'
  | more h _ ih =>
    cases hothers with
    | last h' => rw [h] at h'; cases h'
    | more _ later => rw [ih later]

/-! ## The state of a cursor -/

/-- `cursor.Serves eof lexemes`: the cursor has these lexemes still to answer with, of which the last
is `eof`, or it has answered with `eof` and stays there. -/
inductive Serves (eof : Token) : Cursor → List Lexeme → Prop where
  | begun {p : Position} {cs : List Char} {lexemes : List Lexeme} (h : Layout p cs lexemes)
      (hlast : lexemes.getLast? = some (.token eof)) : Serves eof ⟨cs, p, false⟩ lexemes
  | done {p : Position} (h : eof = ⟨.eof, .between p p⟩) : Serves eof ⟨[], p, true⟩ []

namespace Serves

variable {eof : Token} {cursor : Cursor} {lexeme : Lexeme} {lexemes : List Lexeme}

/-- While there is something left, a cursor that is asked reads the next lexeme, and has then what
is behind it.  It has noticed the end of input if that is what it read. -/
theorem read_of_cons (h : cursor.Serves eof (lexeme :: lexemes)) :
    cursor.finished = false ∧ cursor.read.1 = lexeme ∧ cursor.read.2.Serves eof lexemes ∧
      (isEnd lexeme = true ↔ lexemes = []) := by
  cases h with
  | @begun p cs _ hlayout hlast =>
    refine ⟨rfl, ?_⟩
    rcases readFrom_eq_of_layout hlayout with
      ⟨q, rest, hread, hend, more⟩ | ⟨rfl, q, rfl, hread⟩
    · have hstep : read ⟨cs, p, false⟩ = (lexeme, ⟨rest, q, false⟩) := by
        simp [read, hread, hend]
      rw [List.getLast?_cons_of_ne_nil more.ne_nil] at hlast
      rw [hstep, hend]
      exact ⟨rfl, .begun more hlast, iff_of_false Bool.false_ne_true more.ne_nil⟩
    · have hstep : read ⟨cs, p, false⟩ =
          (.token ⟨.eof, .between q q⟩, ⟨[], q, true⟩) := by
        simp [read, hread, isEnd]
      rw [hstep]
      cases hlast
      exact ⟨rfl, .done rfl, iff_of_true rfl rfl⟩

/-- However it is asked, a cursor answers with the next lexeme while there is one. -/
theorem ask (h : cursor.Serves eof (lexeme :: lexemes)) (question : Question) :
    (cursor.ask question).1 = some lexeme ∧ (cursor.ask question).2.Serves eof lexemes := by
  obtain ⟨hfinished, hread, hserves, -⟩ := h.read_of_cons
  cases question with
  | next =>
    rw [Cursor.ask, next?, hfinished]
    exact ⟨congrArg some hread, hserves⟩
  | read => exact ⟨congrArg some hread, hserves⟩

/-- A cursor that has nothing left stays as it is. -/
theorem ask_nil (h : cursor.Serves eof []) (question : Question) :
    cursor.ask question = (question.atEnd eof, cursor) := by
  cases h with
  | begun hlayout => exact absurd rfl hlayout.ne_nil
  | done heof =>
    subst heof
    cases question with
    | next => rfl
    | read => simp [Cursor.ask, Cursor.read, readFrom, Question.atEnd]

/-- Each question takes one lexeme off the stream, and behind the stream the answers are always the
same. -/
theorem answers_eq (h : cursor.Serves eof lexemes) (questions : List Question) :
    cursor.answers questions =
      questions.mapIdx fun j question => lexemes[j]?.or (question.atEnd eof) := by
  induction questions generalizing cursor lexemes with
  | nil => rfl
  | cons question more ih =>
    rw [answers, List.mapIdx_cons]
    cases lexemes with
    | nil =>
      rw [h.ask_nil question, ih h]
      rfl
    | cons lexeme lexemes =>
      obtain ⟨hanswer, hserves⟩ := h.ask question
      rw [hanswer, ih hserves]
      rfl

theorem readsToEnd (h : cursor.Serves eof lexemes) (hne : lexemes ≠ []) :
    cursor.ReadsToEnd lexemes := by
  induction lexemes generalizing cursor with
  | nil => exact absurd rfl hne
  | cons lexeme lexemes ih =>
    obtain ⟨-, hread, hserves, hend⟩ := h.read_of_cons
    subst hread
    cases lexemes with
    | nil => exact .last (hend.2 rfl)
    | cons next lexemes =>
      refine .more ?_ (ih hserves (List.cons_ne_nil _ _))
      rw [Bool.eq_false_iff, Ne, hend]
      exact List.cons_ne_nil _ _

end Serves

/-- A cursor at the beginning of a source text has all lexemes of the text to answer with. -/
theorem serves_ofString (source : String) :
    ∃ init eof, Lexeme.ofString source = init ++ [.token eof] ∧ eof.kind = .eof ∧
      (ofString source).Serves eof (Lexeme.ofString source) := by
  have hlayout : Layout (ofString source).position (ofString source).rest
      (Lexeme.ofString source) := layout_place _ _
  obtain ⟨init, hlexemes, -⟩ := hlayout.covers
  refine ⟨init, _, hlexemes, rfl, .begun hlayout ?_⟩
  rw [hlexemes, List.getLast?_concat]

end Cursor

/-! ## Source texts -/

/-- All readers of a source text see one stream of lexemes, which reading over and over gives up to
the first end of input.  A cursor that is asked in whatever way answers the question number `j` with
the lexeme number `j` of the stream; behind the stream it does not answer a question for the next
lexeme any more, and reads the end of input again and again.  There are tokens to be had at once if
the stream is one of tokens, and these are they.  Otherwise the first error of the stream is given,
or all of them in order. -/
theorem one_stream (source : String) :
    ∃ stream init eof, stream = init ++ [.token eof] ∧ eof.kind = .eof ∧
      (∀ lexemes, (Cursor.ofString source).ReadsToEnd lexemes ↔ lexemes = stream) ∧
      (∀ questions, (Cursor.ofString source).answers questions =
        questions.mapIdx fun j question => stream[j]?.or
          (match question with
            | .next => none
            | .read => some (.token eof))) ∧
      (∀ tokens, lex source = .ok tokens ↔ stream = tokens.map .token) ∧
      (∀ e, lex source = .error e ↔
        ∃ (before : List Token) (after : List Lexeme),
          stream = before.map .token ++ .error e :: after) ∧
      (∀ tokens, lexAll source = .ok tokens ↔ stream = tokens.map .token) ∧
      (∀ errors, lexAll source = .error errors ↔
        errors ≠ [] ∧ stream.filterMap Lexeme.error? = errors) ∧
      ∀ e, lex source = .error e ↔ ∃ more, lexAll source = .error (e :: more) := by
  obtain ⟨init, eof, hstream, heof, hserves⟩ := Cursor.serves_ofString source
  have hends : (Cursor.ofString source).ReadsToEnd (Lexeme.ofString source) := by
    refine hserves.readsToEnd ?_
    rw [hstream]
    exact List.concat_ne_nil _ _
  refine ⟨Lexeme.ofString source, init, eof, hstream, heof, ?_, ?_, fun _ => lex_eq_ok_iff, ?_,
    fun _ => lexAll_eq_ok_iff, fun _ => lexAll_eq_error_iff, fun _ => lex_eq_error_iff_lexAll⟩
  · intro lexemes
    constructor
    · exact hends.unique
    · rintro rfl
      exact hends
  · intro questions
    rw [hserves.answers_eq]
    rfl
  · intro e
    rw [lex_eq_error_iff, Lexeme.findSome?_error?_eq_some_iff]

end DeclLang
