import DeclLang.Proofs.Grammar.Parser

/-!
# Items behind one token of lookahead

The parser reads an item token by token, each action expecting certain classes of tokens.  An
attempt reads it stage by stage.  `Parser.Follows` says that an action reads the rest of an item
from a stage on, wherever that is; `Parser.follows_take` is the step, which takes one token and goes
on to the next stage or finishes the item.  `Parser.runs_item` says that a whole item is read as an
attempt reads it.
-/

namespace DeclLang

/-- The end of input belongs to no item. -/
theorem Stage.step_of_eof {stage : Stage} {t : Token} (h : t.kind = .eof) :
    stage.step t = .refuse := by
  obtain ⟨kind, span⟩ := t
  cases h
  cases stage with
  | atItem declared => cases declared <;> rfl
  | _ => rfl

/-- An item begins with one of three words, and with `import` only before all declarations. -/
theorem Stage.step_atItem_of_ne {declared : Bool} {t : Token} (hfunc : t.kind ≠ .keyword .func)
    (hvar : t.kind ≠ .keyword .var) (himport : declared = false → t.kind ≠ .keyword .import) :
    (atItem declared).step t = .refuse := by
  rcases (atItem declared).step_cases t with ⟨next, hgo⟩ | ⟨outcome, hfinish⟩ | hrefuse
  · cases hgo with
    | «import» => exact absurd rfl (himport rfl)
    | @declaration _ kind =>
      cases kind with
      | func => exact absurd rfl hfunc
      | var => exact absurd rfl hvar
  · exact absurd rfl (hfinish.isInside declared)
  · exact hrefuse

namespace Parser

/-! ## Items -/

/-- The token, if it is the given reserved word. -/
def word? (word : Keyword) (t : Token) : Option Token :=
  if t.kind = .keyword word then some t else none

/-- The token, if it is the given mark. -/
def mark? (mark : Punctuation) (t : Token) : Option Token :=
  if t.kind = .punctuation mark then some t else none

/-- What a declaration declares that begins with the given token. -/
def declarationKind? : Token → Option Declaration.Kind
  | ⟨.keyword .func, _⟩ => some .func
  | ⟨.keyword .var, _⟩ => some .var
  | _ => none

/-- The name that a token is. -/
def name? : Token → Option String
  | ⟨.ident name, _⟩ => some name
  | _ => none

/-- The value of a string. -/
def string? : Token → Option (Spanned String)
  | ⟨.string value, span⟩ => some ⟨value, span⟩
  | _ => none

/-- The value of an integer or of a string.  An integer may be out of range. -/
def literal? : Token → Option (Except GrammarError (Spanned Literal))
  | ⟨.int digits, span⟩ =>
    match Decimal.int64? digits with
    | some n => some (.ok ⟨.integer n, span⟩)
    | none => some (.error (.integerOverflow digits span))
  | ⟨.string value, span⟩ => some (.ok ⟨.string value, span⟩)
  | _ => none

/-- Reads an integer or a string. -/
def literal : Parsing (Spanned Literal) := do
  let outcome ← take [.int, .string] literal?
  settle outcome

/-- Reads an import. -/
def importItem : Parsing Item := do
  let _ ← take [.keyword .import] (word? .import)
  let path ← take [.string] string?
  return .import path

/-- Reads a declaration. -/
def declaration : Parsing Item := do
  let start := (← get).current.span
  let kind ← take [.keyword .func, .keyword .var] declarationKind?
  let name ← take [.ident] name?
  let _ ← take [.punctuation .eq] (mark? .eq)
  let value ← literal
  return .declaration ⟨⟨kind, name, value.node⟩, start.merge value.span⟩

/-- Reads an item.  There is none at the end of input. -/
def item (declared : Bool) : Parsing (Option Item) := do
  let p ← get
  match declared, p.current.kind with
  | _, .eof => return none
  | false, .keyword .import => return some (← importItem)
  | _, .keyword .func => return some (← declaration)
  | _, .keyword .var => return some (← declaration)
  | _, _ => throw (.grammar ((Stage.atItem declared).unexpected p.current))

variable {p : Parser} {entry : Feed.Entry} {rest : List Feed.Entry}

/-! ## Items as attempts -/

/-- From `p` on, the action reads an item as an attempt does that begins at the stage. -/
def Attempts (x : Parsing Item) (stage : Stage) (p : Parser) : Prop :=
  Runs x p (attempt p.feed.eof stage p.feed.entries).outcome
    (attempt p.feed.eof stage p.feed.entries).read

/-- Wherever the item is at the stage, the action reads the rest of it. -/
def Follows (x : Parsing Item) (stage : Stage) : Prop := ∀ p, Attempts x stage p

section Follows

variable {α : Type} {expected : List TokenClass} {accept : Token → Option α}
  {f : α → Parsing Item} {stage next : Stage} {a : α}

theorem attempts_of_goesOn (h : p.feed.entries = entry :: rest)
    (haccept : accept p.current = some a) (hgo : stage.GoesOn p.current next)
    (hf : Follows (f a) next) :
    Attempts (take expected accept >>= f) stage p := by
  have hentry : entry.token = p.current := by rw [(feed_of_cons h).2.1]
  rw [← hentry] at hgo
  rw [Attempts, h, attempt_of_goesOn hgo]
  refine (runs_take h haccept).bind fun q htook => ?_
  have hmore := hf q
  rwa [Attempts, htook.eof, htook.entries_of h] at hmore

theorem attempts_of_finishes {outcome : Except GrammarError Item}
    (h : p.feed.entries = entry :: rest) (haccept : accept p.current = some a)
    (hfinish : stage.Finishes p.current outcome) (hf : ∀ q, Runs (f a) q outcome []) :
    Attempts (take expected accept >>= f) stage p := by
  have hentry : entry.token = p.current := by rw [(feed_of_cons h).2.1]
  rw [← hentry] at hfinish
  rw [Attempts, h, attempt_of_finishes hfinish]
  exact (runs_take h haccept).bind fun q _ => hf q

/-- An attempt breaks off at the current token if that is refused. -/
theorem attempt_of_current (hrefuse : stage.step p.current = .refuse) :
    attempt p.feed.eof stage p.feed.entries =
      ⟨.error (stage.unexpected p.current), [], p.feed.entries⟩ := by
  rw [current_eq_front] at hrefuse ⊢
  cases h : p.feed.entries with
  | nil => rfl
  | cons entry rest =>
    rw [h] at hrefuse
    exact attempt_of_refuse hrefuse

theorem attempts_of_refuse (haccept : accept p.current = none)
    (hrefuse : stage.step p.current = .refuse) :
    Attempts (take stage.expected accept >>= f) stage p := by
  rw [Attempts, attempt_of_current hrefuse]
  exact (runs_take_refused haccept).bind_error

/-- A token of an item is taken, and the item goes on or is finished, or it breaks off there. -/
theorem follows_take
    (h : ∀ t, (∃ a next, accept t = some a ∧ stage.GoesOn t next ∧ Follows (f a) next) ∨
      (∃ a outcome, accept t = some a ∧ stage.Finishes t outcome ∧ ∀ q, Runs (f a) q outcome []) ∨
      accept t = none ∧ stage.step t = .refuse) :
    Follows (take stage.expected accept >>= f) stage := by
  intro p
  have hcons {step : Stage.Step} (hstep : stage.step p.current = step) (hne : step ≠ .refuse) :
      ∃ entry rest, p.feed.entries = entry :: rest := by
    refine List.exists_cons_of_ne_nil fun hnil => hne ?_
    rw [← hstep, Stage.step_of_eof (kind_eof_iff.2 hnil)]
  rcases h p.current with
    ⟨a, next, haccept, hgo, hf⟩ | ⟨a, outcome, haccept, hfinish, hf⟩ | ⟨haccept, hrefuse⟩
  · obtain ⟨entry, rest, hentries⟩ := hcons hgo.step_eq fun h => by cases h
    exact attempts_of_goesOn hentries haccept hgo hf
  · obtain ⟨entry, rest, hentries⟩ := hcons hfinish.step_eq fun h => by cases h
    exact attempts_of_finishes hentries haccept hfinish hf
  · exact attempts_of_refuse haccept hrefuse

end Follows

/-! ## The rest of an item -/

theorem follows_path :
    Follows (do
      let path ← take [.string] string?
      return .import path) .atPath := by
  refine @follows_take _ _ _ .atPath ?_
  rintro ⟨kind, span⟩
  cases kind with
  | string path => exact .inr (.inl ⟨⟨path, span⟩, _, rfl, .path, fun q => runs_pure _ q⟩)
  | _ => exact .inr (.inr ⟨rfl, rfl⟩)

section Declaration

variable (kind : Declaration.Kind) (start : Span) (name : String)

theorem follows_value :
    Follows (do
      let value ← literal
      return .declaration ⟨⟨kind, name, value.node⟩, start.merge value.span⟩)
      (.atValue kind start name) := by
  rw [literal, bind_assoc]
  refine @follows_take _ _ _ (.atValue kind start name) ?_
  rintro ⟨tokenKind, span⟩
  cases tokenKind with
  | string text =>
    exact .inr (.inl ⟨.ok ⟨.string text, span⟩, _, rfl, .string,
      fun q => (runs_settle _ q).bind_pure _⟩)
  | int digits =>
    cases hdigits : Decimal.int64? digits with
    | some n =>
      have haccept : literal? ⟨.int digits, span⟩ = some (.ok ⟨.integer n, span⟩) := by
        simp only [literal?, hdigits]
      exact .inr (.inl ⟨_, _, haccept, .integer hdigits, fun q => (runs_settle _ q).bind_pure _⟩)
    | none =>
      have haccept : literal? ⟨.int digits, span⟩ =
          some (.error (.integerOverflow digits span)) := by
        simp only [literal?, hdigits]
      exact .inr (.inl ⟨_, _, haccept, .overflow hdigits, fun q => (runs_settle _ q).bind_error⟩)
  | _ => exact .inr (.inr ⟨rfl, rfl⟩)

theorem follows_mark :
    Follows (do
      let _ ← take [.punctuation .eq] (mark? .eq)
      let value ← literal
      return .declaration ⟨⟨kind, name, value.node⟩, start.merge value.span⟩)
      (.atMark kind start name) := by
  refine @follows_take _ _ _ (.atMark kind start name) ?_
  rintro ⟨tokenKind, span⟩
  cases tokenKind with
  | punctuation mark =>
    cases mark
    exact .inl ⟨_, _, rfl, .mark, follows_value kind start name⟩
  | _ => exact .inr (.inr ⟨rfl, rfl⟩)

theorem follows_name :
    Follows (do
      let name ← take [.ident] name?
      let _ ← take [.punctuation .eq] (mark? .eq)
      let value ← literal
      return .declaration ⟨⟨kind, name, value.node⟩, start.merge value.span⟩)
      (.atName kind start) := by
  refine @follows_take _ _ _ (.atName kind start) ?_
  rintro ⟨tokenKind, span⟩
  cases tokenKind with
  | ident name => exact .inl ⟨name, _, rfl, .name, follows_mark kind start name⟩
  | _ => exact .inr (.inr ⟨rfl, rfl⟩)

end Declaration

/-! ## Whole items -/

theorem item_eof (declared : Bool) (h : p.feed.entries = []) : item declared p = .ok none p := by
  have hkind := kind_eof_iff.2 h
  rw [item, get_bind, hkind]
  cases declared <;> rfl

theorem attempts_import (h : p.feed.entries = entry :: rest)
    (hkind : p.current.kind = .keyword .import) : Attempts importItem (.atItem false) p := by
  rcases hcurrent : p.current with ⟨kind, span⟩
  rw [hcurrent] at hkind
  cases hkind
  refine attempts_of_goesOn h (a := p.current) ?_ ?_ follows_path
  · rw [hcurrent]
    rfl
  · rw [hcurrent]
    exact .import

theorem attempts_declaration (declared : Bool) (kind : Declaration.Kind)
    (h : p.feed.entries = entry :: rest) (hkind : p.current.kind = .keyword kind.keyword) :
    Attempts declaration (.atItem declared) p := by
  rcases hcurrent : p.current with ⟨tokenKind, span⟩
  rw [hcurrent] at hkind
  cases hkind
  unfold declaration
  refine Runs.congr ?_ (get_bind _ p)
  refine attempts_of_goesOn h (a := kind) ?_ ?_ (follows_name kind p.current.span)
  · rw [hcurrent]
    cases kind <;> rfl
  · rw [hcurrent]
    exact .declaration

/-- An item is read as an attempt reads it. -/
theorem runs_item (declared : Bool) (h : p.feed.entries = entry :: rest) :
    Runs (item declared) p
      ((attempt p.feed.eof (.atItem declared) p.feed.entries).outcome.map some)
      (attempt p.feed.eof (.atItem declared) p.feed.entries).read := by
  have hkind := (feed_of_cons h).1
  unfold item
  refine Runs.congr ?_ (get_bind _ p)
  split
  · next heof => exact absurd heof hkind
  · next himport => exact (attempts_import h himport).bind_pure some
  · next hfunc => exact (attempts_declaration _ .func h hfunc).bind_pure some
  · next hvar => exact (attempts_declaration _ .var h hvar).bind_pure some
  · next heof hfunc hvar himport =>
    rw [attempt_of_current (Stage.step_atItem_of_ne hfunc hvar himport)]
    exact runs_throw _ p

end Parser

end DeclLang
