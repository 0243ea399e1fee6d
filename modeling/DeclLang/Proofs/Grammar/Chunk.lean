import DeclLang.Proofs.Grammar.Derivation

/-!
# Chunks of tokens

What is wrong with a row of tokens, said without reference to how it is read.  `cutAtWords` cuts the
tokens in front of every reserved word: what comes before the first word is a leading run, and each
word begins a chunk that goes up to the next.

A chunk is well formed if it is an item and nothing else, and a leading run if it is empty
(`Chunk.WellFormed`).  An import has to come before everything that begins with a declaration, so
what is well formed depends on the chunks before it.  `Chunk.Fault` says which error an ill-formed
chunk has: it lies at a misplaced `import`, at an integer out of range, or at the first token that
does not fit.  `Faults` puts the errors of all chunks in a row.

There is no choice in this: a chunk has at most one fault (`Chunk.Fault.unique`), since what fits
is known from the classes of the tokens alone (`Chunk.beginnings`), and so a row of chunks has one
row of errors (`Faults.unique`).
-/

namespace DeclLang

/-! ## Cutting tokens at reserved words -/

/-- Whether an item may begin with the token. -/
def Token.isReserved (t : Token) : Bool := t.kind.keyword?.isSome

/-- A stretch of a row of tokens. -/
abbrev Chunk := List Token

/-- The tokens before the first reserved word, and for each reserved word the chunk that begins with
it. -/
def cutAtWords : List Token → Chunk × List Chunk
  | [] => ([], [])
  | t :: ts =>
    let (leading, chunks) := cutAtWords ts
    if t.isReserved then ([], (t :: leading) :: chunks) else (t :: leading, chunks)

namespace Chunk

/-- No item begins in the chunk. -/
def IsRun (chunk : Chunk) : Prop := ∀ t ∈ chunk, t.isReserved = false

/-- A reserved word and a run behind it. -/
inductive BeginsWithWord : Chunk → Prop where
  | intro {word : Token} {run : Chunk} (hword : word.isReserved = true) (hrun : IsRun run) :
      BeginsWithWord (word :: run)

theorem BeginsWithWord.ne_nil {chunk : Chunk} (h : chunk.BeginsWithWord) : chunk ≠ [] := by
  cases h
  exact List.cons_ne_nil _ _

end Chunk

/-- Cutting loses no token, and cuts in front of the reserved words and nowhere else. -/
theorem cutAtWords_spec (tokens : List Token) :
    tokens = (cutAtWords tokens).1 ++ (cutAtWords tokens).2.flatten ∧
      (cutAtWords tokens).1.IsRun ∧ ∀ chunk ∈ (cutAtWords tokens).2, chunk.BeginsWithWord := by
  induction tokens with
  | nil => exact ⟨rfl, nofun, nofun⟩
  | cons t ts ih =>
    obtain ⟨happend, hleading, hchunks⟩ := ih
    by_cases ht : t.isReserved = true
    · have hcut : cutAtWords (t :: ts) =
          ([], (t :: (cutAtWords ts).1) :: (cutAtWords ts).2) := by
        rw [cutAtWords]
        exact if_pos ht
      rw [hcut]
      refine ⟨congrArg (t :: ·) happend, nofun, ?_⟩
      exact List.forall_mem_cons.2 ⟨.intro ht hleading, hchunks⟩
    · have hcut : cutAtWords (t :: ts) = (t :: (cutAtWords ts).1, (cutAtWords ts).2) := by
        rw [cutAtWords]
        exact if_neg ht
      rw [hcut]
      refine ⟨congrArg (t :: ·) happend, ?_, hchunks⟩
      exact List.forall_mem_cons.2 ⟨Bool.eq_false_iff.2 ht, hleading⟩

/-! ## What is wrong with a chunk -/

namespace Chunk

/-- The chunk begins with the tokens of a declaration. -/
def Declares (chunk : Chunk) : Prop :=
  ∃ tokens more d, chunk = tokens ++ more ∧ DerivesDeclaration tokens d

/-- Something has been declared, so no import can come any more. -/
def Declared (before : List Chunk) : Prop := ∃ chunk ∈ before, Declares chunk

/-- `WellFormed before chunk`: behind the chunks `before`, nothing is wrong with the chunk. -/
inductive WellFormed (before : List Chunk) : Chunk → Prop where
  | empty : WellFormed before []
  | import {chunk : Chunk} {path : Spanned String} (hnone : ¬ Declared before)
      (h : DerivesImport chunk path) : WellFormed before chunk
  | declaration {chunk : Chunk} {d : Spanned Declaration} (h : DerivesDeclaration chunk d) :
      WellFormed before chunk

/-- `Fits before tokens expected`: behind the chunks `before`, a chunk can begin with the tokens,
and then come tokens of the classes `expected`, or the chunk ends if it is an item. -/
inductive Fits (before : List Chunk) : List Token → List TokenClass → Prop where
  | nil (hnone : ¬ Declared before) :
      Fits before [] [.keyword .import, .keyword .func, .keyword .var, .eof]
  | importWord {span : Span} (hnone : ¬ Declared before) :
      Fits before [⟨.keyword .import, span⟩] [.string]
  | import {tokens : List Token} {path : Spanned String} (hnone : ¬ Declared before)
      (h : DerivesImport tokens path) :
      Fits before tokens [.keyword .import, .keyword .func, .keyword .var, .eof]
  | declarationWord {kind : Declaration.Kind} {start : Span} :
      Fits before [⟨.keyword kind.keyword, start⟩] [.ident]
  | name {kind : Declaration.Kind} {start nameSpan : Span} {name : String} :
      Fits before [⟨.keyword kind.keyword, start⟩, ⟨.ident name, nameSpan⟩] [.punctuation .eq]
  | mark {kind : Declaration.Kind} {start nameSpan markSpan : Span} {name : String} :
      Fits before [⟨.keyword kind.keyword, start⟩, ⟨.ident name, nameSpan⟩,
        ⟨.punctuation .eq, markSpan⟩] [.int, .string]
  | declaration {tokens : List Token} {d : Spanned Declaration} (h : DerivesDeclaration tokens d) :
      Fits before tokens [.keyword .func, .keyword .var, .eof]

/-- `Fault before next chunk e`: behind the chunks `before` and in front of the token `next`, what
is wrong with the chunk is `e`. -/
inductive Fault (before : List Chunk) (next : Token) : Chunk → GrammarError → Prop where
  /-- An import behind a declaration. -/
  | misplaced {span : Span} {run : Chunk} (h : Declared before) :
      Fault before next (⟨.keyword .import, span⟩ :: run)
        (.unexpectedToken [.keyword .func, .keyword .var, .eof] ⟨.keyword .import, span⟩)
  /-- An integer that has no value, where a literal is due. -/
  | overflow {kind : Declaration.Kind} {start nameSpan markSpan span : Span} {name digits : String}
      {run : Chunk} (h : ∀ n : Int64, Decimal.integer? digits.toList ≠ some n.toInt) :
      Fault before next
        (⟨.keyword kind.keyword, start⟩ :: ⟨.ident name, nameSpan⟩ ::
          ⟨.punctuation .eq, markSpan⟩ :: ⟨.int digits, span⟩ :: run)
        (.integerOverflow digits span)
  /-- A token that does not fit behind those before it; the chunk may be too short, and then it is
  the token behind the chunk. -/
  | unexpected {chunk : Chunk} {tokens more : List Token} {found : Token}
      {expected : List TokenClass} (happend : chunk ++ [next] = tokens ++ found :: more)
      (hfits : Fits before tokens expected) (hfound : found.kind.tokenClass ∉ expected) :
      Fault before next chunk (.unexpectedToken expected found)

end Chunk

/-- The first token of a row of chunks, behind which comes the end of input. -/
def frontOfChunks (eof : Token) (chunks : List Chunk) : Token := chunks.flatten.headD eof

/-- `Faults eof before chunks errors`: the errors are those of the ill-formed ones among the chunks,
one of each, in order.  The chunks stand behind the chunks `before`. -/
inductive Faults (eof : Token) : List Chunk → List Chunk → List GrammarError → Prop where
  | nil {before : List Chunk} : Faults eof before [] []
  | wellFormed {before chunks : List Chunk} {chunk : Chunk} {errors : List GrammarError}
      (h : chunk.WellFormed before) (later : Faults eof (before ++ [chunk]) chunks errors) :
      Faults eof before (chunk :: chunks) errors
  | illFormed {before chunks : List Chunk} {chunk : Chunk} {e : GrammarError}
      {errors : List GrammarError} (h : ¬ chunk.WellFormed before)
      (hfault : chunk.Fault before (frontOfChunks eof chunks) e)
      (later : Faults eof (before ++ [chunk]) chunks errors) :
      Faults eof before (chunk :: chunks) (e :: errors)

namespace Chunk

/-- An item begins with a reserved word and has no other. -/
theorem beginsWithWord_of_derivesItem {tokens : List Token} {item : Item}
    (h : DerivesItem tokens item) : BeginsWithWord tokens := by
  cases h with
  | «import» h =>
    cases h with
    | intro => exact .intro rfl (by simp [IsRun, Token.isReserved, Token.Kind.keyword?])
  | declaration h =>
    cases h with
    | intro hliteral =>
      refine .intro rfl ?_
      cases hliteral <;> simp [IsRun, Token.isReserved, Token.Kind.keyword?]

theorem not_isRun_of_derivesItem {tokens more : List Token} {item : Item}
    (h : DerivesItem tokens item) : ¬ IsRun (tokens ++ more) := by
  intro hrun
  cases beginsWithWord_of_derivesItem h with
  | intro hword _ => exact Bool.false_ne_true ((hrun _ List.mem_cons_self).symm.trans hword)

/-- A leading run is well formed exactly when it is empty. -/
theorem IsRun.wellFormed_iff {before : List Chunk} {chunk : Chunk} (hrun : chunk.IsRun) :
    chunk.WellFormed before ↔ chunk = [] := by
  constructor
  · intro h
    rw [← List.append_nil chunk] at hrun
    cases h with
    | empty => rfl
    | «import» _ h => exact absurd hrun (not_isRun_of_derivesItem (.import h))
    | declaration h => exact absurd hrun (not_isRun_of_derivesItem (.declaration h))
  · rintro rfl
    exact .empty

end Chunk

/-- There are no errors exactly when all chunks are well formed. -/
theorem Faults.eq_nil_iff {eof : Token} {before chunks : List Chunk} {errors : List GrammarError}
    (h : Faults eof before chunks errors) :
    errors = [] ↔ ∀ first chunk later, chunks = first ++ chunk :: later →
      chunk.WellFormed (before ++ first) := by
  induction h with
  | nil => simp
  | @wellFormed before chunks chunk errors h _ ih =>
    rw [ih]
    constructor
    · intro hall first other later heq
      cases first with
      | nil =>
        cases heq
        simpa using h
      | cons _ first =>
        cases heq
        simpa using hall first other later rfl
    · rintro hall first other later rfl
      simpa using hall (chunk :: first) other later rfl
  | @illFormed before chunks chunk e errors h =>
    refine iff_of_false (List.cons_ne_nil _ _) ?_
    intro hall
    exact h (by simpa using hall [] chunk chunks rfl)

/-! ## One error for each chunk -/

namespace Chunk

/-- The rows of classes that a chunk can begin with, each with the classes that can come next. -/
def beginnings : List (List TokenClass × List TokenClass) :=
  let item := [.keyword .import, .keyword .func, .keyword .var, .eof]
  let declaration := [.keyword .func, .keyword .var, .eof]
  ([], item) :: ([.keyword .import], [.string]) :: ([.keyword .import, .string], item) ::
    [Keyword.func, Keyword.var].flatMap fun word =>
      [([.keyword word], [.ident]),
        ([.keyword word, .ident], [.punctuation .eq]),
        ([.keyword word, .ident, .punctuation .eq], [.int, .string]),
        ([.keyword word, .ident, .punctuation .eq, .int], declaration),
        ([.keyword word, .ident, .punctuation .eq, .string], declaration)]

/-- In the table, what goes on from a beginning is of a class that can come next. -/
theorem mem_of_beginnings : ∀ p ∈ beginnings, ∀ q ∈ beginnings, p.1 <+: q.1 →
    ∀ c ∈ (q.1.drop p.1.length).head?, c ∈ p.2 := by decide

theorem eq_of_beginnings : ∀ p ∈ beginnings, ∀ q ∈ beginnings, p.1 = q.1 → p.2 = q.2 := by decide

variable {before : List Chunk} {tokens : List Token} {expected expected' : List TokenClass}

theorem Fits.mem_beginnings (h : Fits before tokens expected) :
    (tokens.map fun t => t.kind.tokenClass, expected) ∈ beginnings := by
  cases h with
  | «import» _ h =>
    cases h
    simp [beginnings, Token.Kind.tokenClass]
  | @declarationWord kind =>
    cases kind <;> simp [beginnings, Token.Kind.tokenClass, Declaration.Kind.keyword]
  | @name kind => cases kind <;> simp [beginnings, Token.Kind.tokenClass, Declaration.Kind.keyword]
  | @mark kind => cases kind <;> simp [beginnings, Token.Kind.tokenClass, Declaration.Kind.keyword]
  | declaration h =>
    cases h with
    | @intro kind _ _ _ _ _ _ _ h =>
      cases kind <;> cases h <;> simp [beginnings, Token.Kind.tokenClass, Declaration.Kind.keyword]
  | _ => simp [beginnings, Token.Kind.tokenClass]

theorem Fits.expected_eq (h : Fits before tokens expected) (h' : Fits before tokens expected') :
    expected = expected' :=
  eq_of_beginnings _ h.mem_beginnings _ h'.mem_beginnings rfl

theorem Fits.tokenClass_mem {found : Token} {more : List Token} (h : Fits before tokens expected)
    (h' : Fits before (tokens ++ found :: more) expected') : found.kind.tokenClass ∈ expected := by
  refine mem_of_beginnings _ h.mem_beginnings _ h'.mem_beginnings ?_ _ ?_
  · rw [List.map_append]
    exact List.prefix_append _ _
  · simp

/-- Where a chunk stops fitting does not depend on how it is looked at. -/
theorem Fits.unexpected_eq {tokens' more more' : List Token} {found found' : Token}
    (h : Fits before tokens expected) (hfound : found.kind.tokenClass ∉ expected)
    (h' : Fits before tokens' expected') (hfound' : found'.kind.tokenClass ∉ expected')
    (happend : tokens ++ found :: more = tokens' ++ found' :: more') :
    expected = expected' ∧ found = found' := by
  rcases List.append_eq_append_iff.1 happend with ⟨beyond, rfl, hbeyond⟩ | ⟨beyond, rfl, hbeyond⟩
  · cases beyond with
    | nil =>
      rw [List.append_nil] at h'
      exact ⟨h.expected_eq h', (List.cons.inj hbeyond).1⟩
    | cons t beyond =>
      obtain ⟨rfl, -⟩ := List.cons.inj hbeyond
      exact absurd (h.tokenClass_mem h') hfound
  · cases beyond with
    | nil =>
      rw [List.append_nil] at h
      exact ⟨h.expected_eq h', (List.cons.inj hbeyond).1.symm⟩
    | cons t beyond =>
      obtain ⟨rfl, -⟩ := List.cons.inj hbeyond
      exact absurd (h'.tokenClass_mem h) hfound'

/-- Nothing that begins with `import` fits behind a declaration. -/
theorem Fits.not_declared (h : Fits before tokens expected)
    (hhead : ∀ t ∈ tokens.head?, t.kind = .keyword .import) : ¬ Declared before := by
  have hne (kind : Declaration.Kind) : kind.keyword ≠ .import := by cases kind <;> decide
  cases h with
  | nil hnone => exact hnone
  | importWord hnone => exact hnone
  | «import» hnone => exact hnone
  | declaration h =>
    cases h
    exact absurd (Token.Kind.keyword.inj (hhead _ rfl)) (hne _)
  | _ => exact absurd (Token.Kind.keyword.inj (hhead _ rfl)) (hne _)

/-- What fits beyond an integer is an integer in range. -/
theorem Fits.exists_integer {kind : Declaration.Kind} {start nameSpan markSpan span : Span}
    {name digits : String}
    (h : Fits before (⟨.keyword kind.keyword, start⟩ :: ⟨.ident name, nameSpan⟩ ::
      ⟨.punctuation .eq, markSpan⟩ :: ⟨.int digits, span⟩ :: tokens) expected) :
    ∃ n : Int64, Decimal.integer? digits.toList = some n.toInt := by
  generalize htokens : (⟨.keyword kind.keyword, start⟩ :: ⟨.ident name, nameSpan⟩ ::
      ⟨.punctuation .eq, markSpan⟩ :: ⟨.int digits, span⟩ :: tokens : List Token) = ts at h
  cases h with
  | declaration h =>
    cases h with
    | intro hliteral =>
      simp only [List.cons.injEq] at htokens
      obtain ⟨-, -, -, hint, -⟩ := htokens
      cases hint
      cases hliteral with
      | integer hdigits => exact ⟨_, hdigits⟩
  | «import» _ h =>
    cases h
    simp at htokens
  | _ => simp at htokens

/-- No token fits less than an integer out of range that stands where a literal is due. -/
theorem Fits.not_unexpected_of_overflow {kind : Declaration.Kind}
    {start nameSpan markSpan span : Span} {name digits : String} {run more : List Token}
    {found next : Token} (hdigits : ∀ n : Int64, Decimal.integer? digits.toList ≠ some n.toInt)
    (h : Fits before tokens expected) (hfound : found.kind.tokenClass ∉ expected) :
    ⟨.keyword kind.keyword, start⟩ :: ⟨.ident name, nameSpan⟩ :: ⟨.punctuation .eq, markSpan⟩ ::
      ⟨.int digits, span⟩ :: run ++ [next] ≠ tokens ++ found :: more := by
  intro happend
  have hmark : Fits before [⟨.keyword kind.keyword, start⟩, ⟨.ident name, nameSpan⟩,
      ⟨.punctuation .eq, markSpan⟩] [.int, .string] := .mark
  rcases List.append_eq_append_iff.1
      (show [_, _, _] ++ ⟨.int digits, span⟩ :: (run ++ [next]) = _ from happend) with
    ⟨beyond, rfl, hbeyond⟩ | ⟨beyond, hbeyond, hmore⟩
  · cases beyond with
    | nil =>
      rw [List.append_nil] at h
      obtain rfl := h.expected_eq hmark
      obtain ⟨rfl, -⟩ := List.cons.inj hbeyond
      exact hfound List.mem_cons_self
    | cons t beyond =>
      obtain ⟨rfl, -⟩ := List.cons.inj hbeyond
      obtain ⟨n, hn⟩ := h.exists_integer
      exact hdigits n hn
  · cases beyond with
    | nil =>
      rw [List.append_nil] at hbeyond
      subst hbeyond
      obtain rfl := h.expected_eq hmark
      obtain ⟨rfl, -⟩ := List.cons.inj hmore
      exact hfound List.mem_cons_self
    | cons t beyond =>
      obtain ⟨rfl, -⟩ := List.cons.inj hmore
      rw [hbeyond] at hmark
      exact hfound (h.tokenClass_mem hmark)

/-- Nothing but the word itself is wrong with an import behind a declaration. -/
theorem Fits.not_unexpected_of_misplaced {span : Span} {run more : List Token} {found next : Token}
    (hdeclared : Declared before) (h : Fits before tokens expected) :
    ⟨.keyword .import, span⟩ :: run ++ [next] ≠ tokens ++ found :: more := by
  intro happend
  refine h.not_declared ?_ hdeclared
  intro t ht
  cases tokens with
  | nil => cases ht
  | cons first tokens =>
    cases ht
    obtain ⟨rfl, -⟩ := List.cons.inj happend
    rfl

/-- There is only one thing wrong with a chunk. -/
theorem Fault.unique {next : Token} {chunk : Chunk} {e e' : GrammarError}
    (h : Fault before next chunk e) (h' : Fault before next chunk e') : e = e' := by
  have hne (kind : Declaration.Kind) : kind.keyword ≠ .import := by cases kind <;> decide
  generalize hchunk : chunk = other at h'
  cases h with
  | misplaced hdeclared =>
    cases h' with
    | misplaced =>
      obtain ⟨hword, -⟩ := List.cons.inj hchunk
      cases hword
      rfl
    | overflow =>
      obtain ⟨hword, -⟩ := List.cons.inj hchunk
      cases hne _ (Token.Kind.keyword.inj (Token.mk.inj hword).1).symm
    | unexpected happend hfits =>
      subst hchunk
      exact absurd happend (hfits.not_unexpected_of_misplaced hdeclared)
  | overflow hdigits =>
    cases h' with
    | misplaced =>
      obtain ⟨hword, -⟩ := List.cons.inj hchunk
      cases hne _ (Token.Kind.keyword.inj (Token.mk.inj hword).1)
    | overflow =>
      simp only [List.cons.injEq, Token.mk.injEq, Token.Kind.int.injEq] at hchunk
      obtain ⟨-, -, -, ⟨rfl, rfl⟩, -⟩ := hchunk
      rfl
    | unexpected happend hfits hfound =>
      subst hchunk
      exact absurd happend (hfits.not_unexpected_of_overflow hdigits hfound)
  | unexpected happend hfits hfound =>
    cases h' with
    | misplaced hdeclared =>
      subst hchunk
      exact absurd happend (hfits.not_unexpected_of_misplaced hdeclared)
    | overflow hdigits =>
      subst hchunk
      exact absurd happend (hfits.not_unexpected_of_overflow hdigits hfound)
    | unexpected happend' hfits' hfound' =>
      subst hchunk
      obtain ⟨rfl, rfl⟩ :=
        hfits.unexpected_eq hfound hfits' hfound' (happend.symm.trans happend')
      rfl

end Chunk

/-- Chunks determine their errors. -/
theorem Faults.unique {eof : Token} {before chunks : List Chunk}
    {errors errors' : List GrammarError} (h : Faults eof before chunks errors)
    (h' : Faults eof before chunks errors') : errors = errors' := by
  induction h generalizing errors' with
  | nil =>
    cases h'
    rfl
  | wellFormed hwell _ ih =>
    cases h' with
    | wellFormed _ later => exact ih later
    | illFormed hill => exact absurd hwell hill
  | illFormed hill hfault _ ih =>
    cases h' with
    | wellFormed hwell => exact absurd hwell hill
    | illFormed _ hfault' later => rw [hfault.unique hfault', ih later]

end DeclLang
