import DeclLang.Grammar.Pass
import DeclLang.Printer.Canonical
import DeclLang.Proofs.Grammar.Feed

/-!
# What a token makes of a stage

Everything that a token can do at a stage, said once.  `Stage.GoesOn` lists the tokens that an item
goes on with, and `Stage.Finishes` those that finish it; `Stage.step_eq_goOn_iff` and
`Stage.step_eq_finish_iff` say that the lists are complete.  `Stage.Completes` follows an item
through its stages to its last token, and `attempt_eq_ok_iff` says that an attempt finds an item
exactly where one can be followed.

`Stage.Reads` follows an item only some of the way, and `attempt_cases` says where an attempt stops:
with a token that finishes the item, or before one that is refused.
-/

namespace DeclLang

namespace Stage

/-! ## Single tokens -/

/-- `stage.GoesOn t next`: the token belongs to the item and leads to the next stage. -/
inductive GoesOn : Stage → Token → Stage → Prop where
  | import {span : Span} : GoesOn (.atItem false) ⟨.keyword .import, span⟩ .atPath
  | declaration {declared : Bool} {kind : Declaration.Kind} {span : Span} :
      GoesOn (.atItem declared) ⟨.keyword kind.keyword, span⟩ (.atName kind span)
  | name {kind : Declaration.Kind} {start span : Span} {name : String} :
      GoesOn (.atName kind start) ⟨.ident name, span⟩ (.atMark kind start name)
  | mark {kind : Declaration.Kind} {start span : Span} {name : String} :
      GoesOn (.atMark kind start name) ⟨.punctuation .eq, span⟩ (.atValue kind start name)

/-- `stage.Finishes t outcome`: the token is the last of the item, which comes to `outcome`. -/
inductive Finishes : Stage → Token → Except GrammarError Item → Prop where
  | path {path : String} {span : Span} :
      Finishes .atPath ⟨.string path, span⟩ (.ok (.import ⟨path, span⟩))
  | string {kind : Declaration.Kind} {start span : Span} {name text : String} :
      Finishes (.atValue kind start name) ⟨.string text, span⟩
        (.ok (.declaration ⟨⟨kind, name, .string text⟩, start.merge span⟩))
  | integer {kind : Declaration.Kind} {start span : Span} {name digits : String} {n : Int64}
      (hdigits : Decimal.int64? digits = some n) :
      Finishes (.atValue kind start name) ⟨.int digits, span⟩
        (.ok (.declaration ⟨⟨kind, name, .integer n⟩, start.merge span⟩))
  | overflow {kind : Declaration.Kind} {start span : Span} {name digits : String}
      (hdigits : Decimal.int64? digits = none) :
      Finishes (.atValue kind start name) ⟨.int digits, span⟩
        (.error (.integerOverflow digits span))

/-- What finishes an item without making one is an integer out of range. -/
theorem Finishes.eq_overflow {stage : Stage} {t : Token} {g : GrammarError}
    (h : stage.Finishes t (.error g)) :
    ∃ digits, t = ⟨.int digits, t.span⟩ ∧ g = .integerOverflow digits t.span := by
  cases h with
  | overflow => exact ⟨_, rfl, rfl⟩

theorem Finishes.int64?_eq_none {stage : Stage} {digits : String} {span : Span} {g : GrammarError}
    (h : stage.Finishes ⟨.int digits, span⟩ (.error g)) : Decimal.int64? digits = none := by
  cases h with
  | overflow hdigits => exact hdigits

theorem GoesOn.step_eq {stage next : Stage} {t : Token} (h : stage.GoesOn t next) :
    stage.step t = .goOn next := by
  cases h with
  | @declaration declared kind => cases declared <;> cases kind <;> rfl
  | _ => rfl

theorem Finishes.step_eq {stage : Stage} {t : Token} {outcome : Except GrammarError Item}
    (h : stage.Finishes t outcome) : stage.step t = .finish outcome := by
  cases h with
  | integer hdigits => simp [step, hdigits]
  | overflow hdigits => simp [step, hdigits]
  | _ => rfl

/-- The two lists and the refused tokens are all that there is. -/
theorem step_cases (stage : Stage) (t : Token) :
    (∃ next, stage.GoesOn t next) ∨ (∃ outcome, stage.Finishes t outcome) ∨
      stage.step t = .refuse := by
  fun_cases step stage t with
  | case1 => exact .inl ⟨_, .import⟩
  | case2 declared span => exact .inl ⟨_, @GoesOn.declaration declared .func span⟩
  | case3 declared span => exact .inl ⟨_, @GoesOn.declaration declared .var span⟩
  | case4 => exact .inr (.inl ⟨_, .path⟩)
  | case5 => exact .inl ⟨_, .name⟩
  | case6 => exact .inl ⟨_, .mark⟩
  | case7 => exact .inr (.inl ⟨_, .string⟩)
  | case8 kind start name digits span n hdigits => exact .inr (.inl ⟨_, .integer hdigits⟩)
  | case9 kind start name digits span hdigits => exact .inr (.inl ⟨_, .overflow hdigits⟩)
  | case10 => exact .inr (.inr rfl)

theorem step_eq_goOn_iff {stage next : Stage} {t : Token} :
    stage.step t = .goOn next ↔ stage.GoesOn t next := by
  refine ⟨fun h => ?_, GoesOn.step_eq⟩
  rcases stage.step_cases t with ⟨next', h'⟩ | ⟨outcome, h'⟩ | h'
  · rw [h'.step_eq] at h
    cases h
    exact h'
  · rw [h'.step_eq] at h
    cases h
  · rw [h'] at h
    cases h

theorem step_eq_finish_iff {stage : Stage} {t : Token} {outcome : Except GrammarError Item} :
    stage.step t = .finish outcome ↔ stage.Finishes t outcome := by
  refine ⟨fun h => ?_, Finishes.step_eq⟩
  rcases stage.step_cases t with ⟨next, h'⟩ | ⟨outcome', h'⟩ | h'
  · rw [h'.step_eq] at h
    cases h
  · rw [h'.step_eq] at h
    cases h
    exact h'
  · rw [h'] at h
    cases h

/-! ## Whole items -/

/-- `stage.Completes ts item`: from the stage on, `ts` are the tokens of the item. -/
inductive Completes : Stage → List Token → Item → Prop where
  | finish {stage : Stage} {t : Token} {item : Item} (h : stage.Finishes t (.ok item)) :
      Completes stage [t] item
  | goOn {stage next : Stage} {t : Token} {ts : List Token} {item : Item}
      (h : stage.GoesOn t next) (more : next.Completes ts item) : Completes stage (t :: ts) item

/-! ## Parts of items -/

/-- `stage.Reads ts last`: from the stage on, an item goes on with the tokens `ts` and is at `last`
behind them. -/
inductive Reads : Stage → List Token → Stage → Prop where
  | nil {stage : Stage} : Reads stage [] stage
  | cons {stage next last : Stage} {t : Token} {ts : List Token} (h : stage.GoesOn t next)
      (more : next.Reads ts last) : Reads stage (t :: ts) last

/-- Between the tokens of an item. -/
def IsInside (stage : Stage) : Prop := ∀ declared, stage ≠ .atItem declared

theorem GoesOn.isInside {stage next : Stage} {t : Token} (h : stage.GoesOn t next) :
    next.IsInside := by
  cases h <;> nofun

/-- The end of input can come only between items. -/
theorem IsInside.eof_notMem_expected {stage : Stage} (h : stage.IsInside) :
    .eof ∉ stage.expected := by
  cases stage with
  | atItem declared => exact absurd rfl (h declared)
  | _ => simp [expected]

theorem eof_mem_expected_atItem (declared : Bool) : .eof ∈ (atItem declared).expected := by
  cases declared <;> simp [expected]

theorem IsInside.expected_ne {stage : Stage} (h : stage.IsInside) (declared : Bool) :
    stage.expected ≠ (atItem declared).expected := by
  intro heq
  have hmem := eof_mem_expected_atItem declared
  rw [← heq] at hmem
  exact h.eof_notMem_expected hmem

/-- Reserved words stand at the beginning of items only. -/
theorem GoesOn.keyword?_eq_none {stage next : Stage} {t : Token} (h : stage.GoesOn t next)
    (hinside : stage.IsInside) : t.kind.keyword? = none := by
  cases h with
  | «import» => exact absurd rfl (hinside _)
  | declaration => exact absurd rfl (hinside _)
  | name => rfl
  | mark => rfl

theorem Finishes.keyword?_eq_none {stage : Stage} {t : Token} {outcome : Except GrammarError Item}
    (h : stage.Finishes t outcome) : t.kind.keyword? = none := by
  cases h <;> rfl

theorem Finishes.isInside {stage : Stage} {t : Token} {outcome : Except GrammarError Item}
    (h : stage.Finishes t outcome) : stage.IsInside := by
  cases h <;> nofun

theorem Reads.isInside {stage last : Stage} {ts : List Token} (h : stage.Reads ts last)
    (hinside : stage.IsInside) : last.IsInside ∧ ∀ t ∈ ts, t.kind.keyword? = none := by
  induction h with
  | nil => exact ⟨hinside, by simp⟩
  | cons h _ ih =>
    obtain ⟨hlast, hmore⟩ := ih h.isInside
    exact ⟨hlast, List.forall_mem_cons.2 ⟨h.keyword?_eq_none hinside, hmore⟩⟩

theorem Reads.isInside_of_ne_nil {stage last : Stage} {ts : List Token} (h : stage.Reads ts last)
    (hne : ts ≠ []) : last.IsInside := by
  cases h with
  | nil => exact absurd rfl hne
  | cons h more => exact (more.isInside h.isInside).1

/-- No item begins within another. -/
theorem Reads.keyword?_eq_none_of_mem_tail {stage last : Stage} {ts : List Token}
    (h : stage.Reads ts last) : ∀ t ∈ ts.tail, t.kind.keyword? = none := by
  cases h with
  | nil => exact nofun
  | cons h more => exact (more.isInside h.isInside).2

end Stage

variable {eof : Token} {stage next : Stage} {entry : Feed.Entry}
  {entries read rest : List Feed.Entry}

theorem attempt_of_goesOn (h : stage.GoesOn entry.token next) :
    attempt eof stage (entry :: rest) =
      { attempt eof next rest with read := entry :: (attempt eof next rest).read } := by
  rw [attempt, h.step_eq]

theorem attempt_of_finishes {outcome : Except GrammarError Item}
    (h : stage.Finishes entry.token outcome) :
    attempt eof stage (entry :: rest) = ⟨outcome, [entry], rest⟩ := by
  rw [attempt, h.step_eq]

theorem attempt_of_refuse (h : stage.step entry.token = .refuse) :
    attempt eof stage (entry :: rest) =
      ⟨.error (stage.unexpected entry.token), [], entry :: rest⟩ := by
  rw [attempt, h]

/-- An attempt finds an item if and only if the tokens that it reads complete one. -/
theorem attempt_eq_ok_iff {item : Item} :
    attempt eof stage entries = ⟨.ok item, read, rest⟩ ↔
      entries = read ++ rest ∧ stage.Completes (read.map Feed.Entry.token) item := by
  constructor
  · intro h
    induction entries generalizing stage read with
    | nil => cases h
    | cons entry entries ih =>
      rcases stage.step_cases entry.token with ⟨next, hgo⟩ | ⟨outcome, hfinish⟩ | hrefuse
      · rw [attempt_of_goesOn hgo, Attempt.mk.injEq] at h
        obtain ⟨houtcome, rfl, hrest⟩ := h
        obtain ⟨happend, hmore⟩ := @ih next (attempt eof next entries).read
          (by rw [← houtcome, ← hrest])
        refine ⟨by rw [List.cons_append, ← happend], ?_⟩
        exact .goOn hgo hmore
      · rw [attempt_of_finishes hfinish] at h
        cases h
        exact ⟨rfl, .finish hfinish⟩
      · rw [attempt_of_refuse hrefuse] at h
        cases h
  · rintro ⟨rfl, h⟩
    generalize hts : read.map Feed.Entry.token = ts at h
    induction h generalizing read with
    | finish h =>
      obtain ⟨entry, rfl, rfl⟩ := List.map_eq_singleton_iff.1 hts
      rw [List.singleton_append, attempt_of_finishes h]
    | goOn h _ ih =>
      obtain ⟨entry, more, rfl, rfl, hmore⟩ := List.map_eq_cons_iff.1 hts
      rw [List.cons_append, attempt_of_goesOn h, ih hmore]

/-- An attempt reads up to a token that finishes the item, or else up to one that is refused or the
end of input. -/
theorem attempt_cases (eof : Token) (stage : Stage) (entries : List Feed.Entry) :
    (∃ init last entry rest outcome, entries = init ++ entry :: rest ∧
      stage.Reads (init.map Feed.Entry.token) last ∧ last.Finishes entry.token outcome ∧
      attempt eof stage entries = ⟨outcome, init ++ [entry], rest⟩) ∨
    ∃ read last rest, entries = read ++ rest ∧ stage.Reads (read.map Feed.Entry.token) last ∧
      (∀ entry ∈ rest.head?, last.step entry.token = .refuse) ∧
      attempt eof stage entries = ⟨.error (last.unexpected (Feed.front eof rest)), read, rest⟩ := by
  induction entries generalizing stage with
  | nil => exact .inr ⟨[], stage, [], rfl, .nil, by simp, rfl⟩
  | cons entry entries ih =>
    rcases stage.step_cases entry.token with ⟨next, hgo⟩ | ⟨outcome, hfinish⟩ | hrefuse
    · rw [attempt_of_goesOn hgo]
      rcases ih next with ⟨init, last, finish, rest, outcome, rfl, hreads, hfinish, hattempt⟩ |
        ⟨read, last, rest, rfl, hreads, hrefuse, hattempt⟩
      · rw [hattempt]
        exact .inl ⟨entry :: init, last, finish, rest, outcome, rfl, .cons hgo hreads, hfinish, rfl⟩
      · rw [hattempt]
        exact .inr ⟨entry :: read, last, rest, rfl, .cons hgo hreads, hrefuse, rfl⟩
    · exact .inl ⟨[], stage, entry, entries, outcome, rfl, .nil, hfinish,
        attempt_of_finishes hfinish⟩
    · exact .inr ⟨[], stage, entry :: entries, rfl, .nil, by simpa using hrefuse,
        attempt_of_refuse hrefuse⟩

/-- An attempt fails at the token behind the last that it read, or with that last token, an integer
out of range. -/
theorem attempt_error_cases {eof : Token} {stage : Stage} {entries read rest : List Feed.Entry}
    {g : GrammarError} (h : attempt eof stage entries = ⟨.error g, read, rest⟩) :
    (∃ expected, g = .unexpectedToken expected (Feed.front eof rest)) ∨
    ∃ init digits span errors, read = init ++ [⟨⟨.int digits, span⟩, errors⟩] ∧
      g = .integerOverflow digits span := by
  rcases attempt_cases eof stage entries with
    ⟨init, last, entry, left, outcome, -, -, hfinish, hattempt⟩ |
    ⟨init, last, left, -, -, -, hattempt⟩
  · rw [hattempt] at h
    cases h
    obtain ⟨t, errors⟩ := entry
    obtain ⟨digits, ht, hg⟩ := hfinish.eq_overflow
    exact .inr ⟨init, digits, t.span, errors, by rw [← ht], hg⟩
  · rw [hattempt] at h
    cases h
    exact .inl ⟨last.expected, rfl⟩

end DeclLang
