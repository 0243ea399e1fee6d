import DeclLang.Grammar.Feed
import DeclLang.Grammar.Stage

/-!
# Passes over a feed

The grammar goes over a feed in passes.  A pass is an *attempt* at an item, which reads as many
tokens as belong to it, and after a failure the skipping of tokens up to the next reserved word,
where an item may begin.  A token that stopped an item is not read by the attempt, so an item
that breaks off at a reserved word loses nothing of the item behind it; an attempt that reads no
token at all skips the one that it failed at.

* `attempt_append` and `Pass.ofAttempt_append` say that each token is read, skipped or left.
* `passes` goes over a whole feed, and `passes_flatMap_entries` says that its passes are a
  partition of the feed.
-/

namespace DeclLang

/-! ## Attempts -/

/-- What came of an attempt at an item. -/
structure Attempt where
  /-- The item, or why there is none. -/
  outcome : Except GrammarError Item
  /-- The tokens that the attempt read. -/
  read : List Feed.Entry
  /-- The tokens that it left. -/
  rest : List Feed.Entry

/-- Reads an item from a stage on.  Behind the given tokens comes the end of input. -/
def attempt (eof : Token) (stage : Stage) : List Feed.Entry → Attempt
  | [] => ⟨.error (stage.unexpected eof), [], []⟩
  | entry :: rest =>
    match stage.step entry.token with
    | .goOn next =>
      let more := attempt eof next rest
      { more with read := entry :: more.read }
    | .finish outcome => ⟨outcome, [entry], rest⟩
    | .refuse => ⟨.error (stage.unexpected entry.token), [], entry :: rest⟩

/-- An attempt reads tokens from the front and leaves the others. -/
theorem attempt_append (eof : Token) (stage : Stage) (entries : List Feed.Entry) :
    (attempt eof stage entries).read ++ (attempt eof stage entries).rest = entries := by
  induction entries generalizing stage with
  | nil => rfl
  | cons entry rest ih =>
    unfold attempt
    split
    · next next _ => simpa using ih next
    · rfl
    · rfl

/-- An item has at least one token. -/
theorem read_ne_nil_of_outcome_ok {eof : Token} {stage : Stage} {entries : List Feed.Entry}
    {item : Item} (h : (attempt eof stage entries).outcome = .ok item) :
    (attempt eof stage entries).read ≠ [] := by
  cases entries with
  | nil => simp [attempt] at h
  | cons entry rest =>
    unfold attempt at h ⊢
    split <;> simp_all

/-! ## Passes -/

/-- An attempt at an item and the skipping that follows it. -/
structure Pass where
  /-- The item, or why there is none. -/
  outcome : Except GrammarError Item
  /-- The tokens that the attempt read. -/
  read : List Feed.Entry
  /-- The tokens that were skipped after it failed. -/
  skipped : List Feed.Entry

namespace Pass

/-- Whether an item may begin with a token. -/
def beginsItem (entry : Feed.Entry) : Bool := entry.token.kind.keyword?.isSome

/-- The pass that an attempt leads to, and the tokens behind the pass.  After a failure tokens are
skipped up to a reserved word; if the attempt read nothing, the first is skipped whatever it
is. -/
def ofAttempt (a : Attempt) : Pass × List Feed.Entry :=
  match a.outcome, a.read, a.rest with
  | .ok _, _, rest => (⟨a.outcome, a.read, []⟩, rest)
  | .error _, [], entry :: rest =>
    (⟨a.outcome, [], entry :: rest.takeWhile fun e => !beginsItem e⟩,
      rest.dropWhile fun e => !beginsItem e)
  | .error _, _, rest =>
    (⟨a.outcome, a.read, rest.takeWhile fun e => !beginsItem e⟩,
      rest.dropWhile fun e => !beginsItem e)

/-- All tokens of a pass, in order. -/
def entries (p : Pass) : List Feed.Entry := p.read ++ p.skipped

/-- Whether the pass found a declaration. -/
def declares (p : Pass) : Bool :=
  match p.outcome with
  | .ok item => item.isDeclaration
  | .error _ => false

/-- A pass takes tokens from the front of what the attempt saw. -/
theorem ofAttempt_append (a : Attempt) :
    (ofAttempt a).1.entries ++ (ofAttempt a).2 = a.read ++ a.rest := by
  unfold ofAttempt entries
  split
  · simp
  · next h₁ h₂ => simp [h₁, h₂]
  · simp

/-- A pass over tokens takes at least one of them. -/
theorem entries_ofAttempt_ne_nil (eof : Token) (stage : Stage) (entry : Feed.Entry)
    (rest : List Feed.Entry) :
    (ofAttempt (attempt eof stage (entry :: rest))).1.entries ≠ [] := by
  have happend := attempt_append eof stage (entry :: rest)
  unfold ofAttempt entries
  split
  · next item h => simpa using read_ne_nil_of_outcome_ok h
  · simp
  · next hne =>
    intro hnil
    have hread : (attempt eof stage (entry :: rest)).read = [] :=
      (List.append_eq_nil_iff.1 hnil).1
    rw [hread, List.nil_append] at happend
    exact hne entry rest hread happend

end Pass

/-- The passes over a row of tokens behind which comes the end of input.  Once something has been
declared, nothing more can be imported. -/
def passes (eof : Token) (declared : Bool) : List Feed.Entry → List Pass
  | [] => []
  | entry :: rest =>
    let step := Pass.ofAttempt (attempt eof (.atItem declared) (entry :: rest))
    step.1 :: passes eof (declared || step.1.declares) step.2
termination_by entries => entries.length
decreasing_by
  have happend := congrArg List.length
    (Pass.ofAttempt_append (attempt eof (.atItem declared) (entry :: rest)))
  have hpos := List.length_pos_iff.2
    (Pass.entries_ofAttempt_ne_nil eof (.atItem declared) entry rest)
  rw [attempt_append, List.length_append] at happend
  omega

@[simp]
theorem passes_nil (eof : Token) (declared : Bool) : passes eof declared [] = [] := by
  rw [passes]

/-- Every token belongs to exactly one pass, and the passes come in the order of their tokens. -/
theorem passes_flatMap_entries (eof : Token) (declared : Bool) (entries : List Feed.Entry) :
    (passes eof declared entries).flatMap Pass.entries = entries := by
  induction declared, entries using passes.induct eof with
  | case1 => simp
  | case2 declared entry rest step ih =>
    rw [passes, List.flatMap_cons, ih, Pass.ofAttempt_append, attempt_append]

end DeclLang
