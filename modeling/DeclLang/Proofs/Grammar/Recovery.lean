import DeclLang.Proofs.Grammar.Cascade
import DeclLang.Proofs.Grammar.Chunk

/-!
# Recovery from errors

What giving all errors gives where there is no lexical error: exactly one error for every chunk of
the tokens that is ill formed.

A chunk takes one pass, or two if it goes on behind an item (`Faults.of_chunk`).  An attempt never
reads beyond its chunk, since reserved words stand at the beginning of items only, and the skipping
behind a failure ends where the chunk does.
-/

namespace DeclLang

/-! ## Stages and chunks -/

namespace Stage

/-- How far an item can have been read, and the tokens that lead there. -/
theorem Reads.cases_atItem {declared : Bool} {ts : List Token} {last : Stage}
    (h : Reads (.atItem declared) ts last) :
    (ts = [] ∧ last = .atItem declared) ∨
    (∃ span, declared = false ∧ ts = [⟨.keyword .import, span⟩] ∧ last = .atPath) ∨
    ∃ kind start, (ts = [⟨.keyword kind.keyword, start⟩] ∧ last = .atName kind start) ∨
      ∃ name nameSpan, (ts = [⟨.keyword kind.keyword, start⟩, ⟨.ident name, nameSpan⟩] ∧
          last = .atMark kind start name) ∨
        ∃ markSpan, ts = [⟨.keyword kind.keyword, start⟩, ⟨.ident name, nameSpan⟩,
            ⟨.punctuation .eq, markSpan⟩] ∧ last = .atValue kind start name := by
  cases h with
  | nil => exact .inl ⟨rfl, rfl⟩
  | cons h more =>
    cases h with
    | «import» =>
      cases more with
      | nil => exact .inr (.inl ⟨_, rfl, rfl, rfl⟩)
      | cons h => cases h
    | declaration =>
      cases more with
      | nil => exact .inr (.inr ⟨_, _, .inl ⟨rfl, rfl⟩⟩)
      | cons h more =>
        cases h
        cases more with
        | nil => exact .inr (.inr ⟨_, _, .inr ⟨_, _, .inl ⟨rfl, rfl⟩⟩⟩)
        | cons h more =>
          cases h
          cases more with
          | nil => exact .inr (.inr ⟨_, _, .inr ⟨_, _, .inr ⟨_, rfl, rfl⟩⟩⟩)
          | cons h => cases h

theorem step_atItem_of_not_reserved {t : Token} (ht : t.isReserved = false) (declared : Bool) :
    (atItem declared).step t = .refuse := by
  obtain ⟨kind, span⟩ := t
  cases kind with
  | keyword word => cases ht
  | _ => cases declared <;> rfl

/-- The only reserved word that is refused at the beginning of an item is a misplaced `import`. -/
theorem eq_import_of_refuse {t : Token} (ht : t.isReserved = true) {declared : Bool}
    (h : (atItem declared).step t = .refuse) :
    declared = true ∧ ∃ span, t = ⟨.keyword .import, span⟩ := by
  rcases (atItem declared).step_cases t with ⟨next, hgo⟩ | ⟨outcome, hfinish⟩ | _
  · rw [hgo.step_eq] at h
    cases h
  · exact absurd rfl (hfinish.isInside declared)
  · obtain ⟨kind, span⟩ := t
    cases kind with
    | keyword word =>
      cases word with
      | «import» =>
        cases declared with
        | false => cases h
        | true => exact ⟨rfl, span, rfl⟩
      | func => cases declared <;> cases h
      | var => cases declared <;> cases h
    | _ => cases ht

end Stage

namespace Chunk

variable {declared : Bool} {before : List Chunk}

/-- The stages of an item say what fits in a chunk. -/
theorem fits_of_reads {ts : List Token} {last : Stage}
    (hdeclared : declared = true ↔ Declared before) (h : Stage.Reads (.atItem declared) ts last)
    (hne : ts ≠ []) : Fits before ts last.expected := by
  rcases h.cases_atItem with ⟨rfl, -⟩ | ⟨span, rfl, rfl, rfl⟩ | ⟨kind, start, hdeclaration⟩
  · exact absurd rfl hne
  · exact .importWord fun hbefore => Bool.false_ne_true (hdeclared.2 hbefore)
  · rcases hdeclaration with ⟨rfl, rfl⟩ |
      ⟨name, nameSpan, ⟨rfl, rfl⟩ | ⟨markSpan, rfl, rfl⟩⟩
    · exact .declarationWord
    · exact .name
    · exact .mark

/-- Behind an item comes the next one or the end of input. -/
theorem fits_of_item {tokens : List Token} {item : Item}
    (hdeclared : declared = true ↔ Declared before) (h : DerivesItem tokens item)
    (horder : declared = true → item.isDeclaration = true) :
    Fits before tokens (Stage.atItem (declared || item.isDeclaration)).expected := by
  cases h with
  | «import» h =>
    cases declared with
    | true => cases horder rfl
    | false => exact .import (fun hbefore => Bool.false_ne_true (hdeclared.2 hbefore)) h
  | declaration h =>
    rw [Item.isDeclaration, Bool.or_true]
    exact .declaration h

theorem derivesItem_iff_wellFormed {chunk : Chunk} (hdeclared : declared = true ↔ Declared before)
    (hne : chunk ≠ []) :
    chunk.WellFormed before ↔
      ∃ item, DerivesItem chunk item ∧ (declared = true → item.isDeclaration = true) := by
  constructor
  · intro h
    cases h with
    | empty => exact absurd rfl hne
    | «import» hnone h => exact ⟨_, .import h, fun htrue => absurd (hdeclared.1 htrue) hnone⟩
    | declaration h => exact ⟨_, .declaration h, fun _ => rfl⟩
  · rintro ⟨item, h, horder⟩
    cases h with
    | «import» h => exact .import (fun hbefore => by cases horder (hdeclared.2 hbefore)) h
    | declaration h => exact .declaration h

end Chunk

/-! ## Passes over runs -/

/-- Nothing is left, or an item begins. -/
def AtItems (rest : List Feed.Entry) : Prop := ∀ entry ∈ rest.head?, entry.token.isReserved = true

/-- Skipping takes a run up to where items begin. -/
theorem skip_run {run rest : List Feed.Entry} (hrun : ∀ entry ∈ run, entry.token.isReserved = false)
    (hrest : AtItems rest) :
    (run ++ rest).takeWhile (fun entry => !Pass.beginsItem entry) = run ∧
      (run ++ rest).dropWhile (fun entry => !Pass.beginsItem entry) = rest := by
  have hskipped : ∀ entry ∈ run, (!Pass.beginsItem entry) = true := by
    intro entry hmem
    rw [Bool.not_eq_true']
    exact hrun entry hmem
  have hleft : ∀ entry ∈ rest.head?, (!Pass.beginsItem entry) = false := by
    intro entry hmem
    rw [Bool.not_eq_false']
    exact hrest entry hmem
  exact ⟨takeWhile_append_of_endsRun hskipped hleft, dropWhile_append_of_endsRun hskipped hleft⟩

section

variable {eof : Token} {declared : Bool} {g : GrammarError} {entry : Feed.Entry}
  {entries read run rest : List Feed.Entry}

theorem passes_of_failure (hne : entries ≠ [])
    (h : Pass.ofAttempt (attempt eof (.atItem declared) entries) = (⟨.error g, read, run⟩, rest)) :
    (passes eof declared entries).flatMap Pass.rejection =
      g :: (passes eof declared rest).flatMap Pass.rejection := by
  obtain ⟨entry, entries, rfl⟩ := List.exists_cons_of_ne_nil hne
  rw [passes, h, List.flatMap_cons, Pass.declares, Bool.or_false]
  rfl

theorem ofAttempt_of_read (hread : read ≠ [])
    (hrun : ∀ entry ∈ run, entry.token.isReserved = false) (hrest : AtItems rest) :
    Pass.ofAttempt ⟨.error g, read, run ++ rest⟩ = (⟨.error g, read, run⟩, rest) := by
  obtain ⟨entry, read, rfl⟩ := List.exists_cons_of_ne_nil hread
  obtain ⟨htake, hdrop⟩ := skip_run hrun hrest
  simp only [Pass.ofAttempt, htake, hdrop]

theorem ofAttempt_of_read_eq_nil (hrun : ∀ entry ∈ run, entry.token.isReserved = false)
    (hrest : AtItems rest) :
    Pass.ofAttempt ⟨.error g, [], entry :: (run ++ rest)⟩ =
      (⟨.error g, [], entry :: run⟩, rest) := by
  obtain ⟨htake, hdrop⟩ := skip_run hrun hrest
  simp only [Pass.ofAttempt, htake, hdrop]

/-- A run at the beginning of an item makes one error, at its first token. -/
theorem passes_of_run (hrun : ∀ e ∈ entry :: run, e.token.isReserved = false)
    (hrest : AtItems rest) :
    (passes eof declared (entry :: run ++ rest)).flatMap Pass.rejection =
      .unexpectedToken (Stage.atItem declared).expected entry.token ::
        (passes eof declared rest).flatMap Pass.rejection := by
  obtain ⟨hentry, hrun⟩ := List.forall_mem_cons.1 hrun
  have hpass : Pass.ofAttempt (attempt eof (.atItem declared) (entry :: run ++ rest)) =
      (⟨.error ((Stage.atItem declared).unexpected entry.token), [], entry :: run⟩, rest) := by
    have hrefuse := Stage.step_atItem_of_not_reserved hentry declared
    rw [List.cons_append, attempt_of_refuse hrefuse]
    exact ofAttempt_of_read_eq_nil hrun hrest
  exact passes_of_failure (List.cons_ne_nil _ _) hpass

end

/-! ## Passes over chunks -/

/-- What an attempt reads from the front of a chunk is within the chunk. -/
theorem exists_append_of_chunk {first rest read left : List Feed.Entry} (hfirst : first ≠ [])
    (hrest : AtItems rest) (h : first ++ rest = read ++ left)
    (hread : ∀ entry ∈ read.tail, entry.token.isReserved = false) :
    ∃ more, first = read ++ more ∧ left = more ++ rest := by
  rcases List.append_eq_append_iff.1 h with ⟨beyond, hbeyond, hleft⟩ | ⟨more, hmore, hleft⟩
  · cases beyond with
    | nil => exact ⟨[], by simpa using hbeyond.symm, by simpa using hleft.symm⟩
    | cons entry beyond =>
      -- The chunk behind would begin within the item.
      have hword : entry.token.isReserved = true := hrest entry (by rw [hleft]; rfl)
      obtain ⟨begin, first, rfl⟩ := List.exists_cons_of_ne_nil hfirst
      have hinside := hread entry (by rw [hbeyond]; simp)
      rw [hword] at hinside
      cases hinside
  · exact ⟨more, hmore, hleft⟩

namespace Chunk

variable {eof : Token} {declared : Bool} {before : List Chunk} {first rest : List Feed.Entry}

/-- A chunk is well formed exactly when an attempt takes all of it for an item. -/
theorem wellFormed_iff_attempt (eof : Token) (rest : List Feed.Entry)
    (hdeclared : declared = true ↔ Declared before) (hne : first ≠ []) :
    WellFormed before (first.map Feed.Entry.token) ↔
      ∃ item, attempt eof (.atItem declared) (first ++ rest) = ⟨.ok item, first, rest⟩ := by
  rw [derivesItem_iff_wellFormed hdeclared (by simpa using hne)]
  refine exists_congr fun item => ?_
  rw [attempt_eq_ok_iff, completes_iff_derivesItem, and_iff_right rfl]

theorem declared_append {chunk : Chunk} :
    Declared (before ++ [chunk]) ↔ Declared before ∨ chunk.Declares := by
  simp [Declared, or_and_right, exists_or]

/-- A token that begins no item does not fit where one is to begin. -/
theorem tokenClass_notMem_atItem {t : Token} (ht : t.isReserved = false) (heof : t.kind ≠ .eof) :
    t.kind.tokenClass ∉ (Stage.atItem declared).expected :=
  (Stage.step_eq_refuse_iff heof).1 (Stage.step_atItem_of_not_reserved ht declared)

theorem not_reserved_of_mem_tail (hfirst : BeginsWithWord (first.map Feed.Entry.token)) :
    ∀ entry ∈ first.tail, entry.token.isReserved = false := by
  generalize htokens : first.map Feed.Entry.token = tokens at hfirst
  cases hfirst with
  | intro hword hrun =>
    obtain ⟨begin, run, rfl, rfl, rfl⟩ := List.map_eq_cons_iff.1 htokens
    intro entry hmem
    exact hrun _ (List.mem_map_of_mem hmem)

/-- What is read from the front of a chunk is within the chunk, and a run is left of it. -/
theorem exists_run_of_append {read left : List Feed.Entry}
    (hfirst : BeginsWithWord (first.map Feed.Entry.token)) (hrest : AtItems rest)
    (happend : first ++ rest = read ++ left) (hne : read ≠ [])
    (hread : ∀ entry ∈ read.tail, entry.token.isReserved = false) :
    ∃ run, first = read ++ run ∧ left = run ++ rest ∧
      ∀ entry ∈ run, entry.token.isReserved = false := by
  have hfirst_ne : first ≠ [] := by simpa using hfirst.ne_nil
  obtain ⟨run, rfl, hleft⟩ := exists_append_of_chunk hfirst_ne hrest happend hread
  refine ⟨run, rfl, hleft, ?_⟩
  intro entry hmem
  obtain ⟨begin, read, rfl⟩ := List.exists_cons_of_ne_nil hne
  exact not_reserved_of_mem_tail hfirst entry (List.mem_append_right _ hmem)

/-- An item that an attempt finds stands at the front of the chunk, and a run is left behind it. -/
theorem item_of_outcome {item : Item} (hfirst : BeginsWithWord (first.map Feed.Entry.token))
    (hrest : AtItems rest)
    (h : (attempt eof (.atItem declared) (first ++ rest)).outcome = .ok item) :
    ∃ read run, first = read ++ run ∧
      attempt eof (.atItem declared) (first ++ rest) = ⟨.ok item, read, run ++ rest⟩ ∧
      DerivesItem (read.map Feed.Entry.token) item ∧
      (declared = true → item.isDeclaration = true) ∧
      ∀ entry ∈ run, entry.token.isReserved = false := by
  obtain ⟨read, left, hattempt⟩ : ∃ read left,
      attempt eof (.atItem declared) (first ++ rest) = ⟨.ok item, read, left⟩ :=
    ⟨_, _, by rw [← h]⟩
  obtain ⟨happend, hcompletes⟩ := attempt_eq_ok_iff.1 hattempt
  obtain ⟨hitem, horder⟩ := completes_iff_derivesItem.1 hcompletes
  have hread := beginsWithWord_of_derivesItem hitem
  have hne : read ≠ [] := by simpa using hread.ne_nil
  obtain ⟨run, hrun, rfl, hrun_words⟩ := exists_run_of_append hfirst hrest happend hne
    (not_reserved_of_mem_tail hread)
  exact ⟨read, run, hrun, hattempt, hitem, horder, hrun_words⟩

/-- A chunk begins with a declaration exactly when an attempt finds one. -/
theorem declares_iff_outcome (eof : Token) (declared : Bool)
    (hfirst : BeginsWithWord (first.map Feed.Entry.token)) (hrest : AtItems rest) :
    Declares (first.map Feed.Entry.token) ↔
      ∃ d, (attempt eof (.atItem declared) (first ++ rest)).outcome = .ok (.declaration d) := by
  constructor
  · rintro ⟨tokens, more, d, happend, hd⟩
    obtain ⟨read, left, rfl, rfl, rfl⟩ := List.map_eq_append_iff.1 happend
    have hattempt : attempt eof (.atItem declared) (read ++ left ++ rest) =
        ⟨.ok (.declaration d), read, left ++ rest⟩ := by
      refine attempt_eq_ok_iff.2 ⟨List.append_assoc .., ?_⟩
      exact completes_iff_derivesItem.2 ⟨.declaration hd, fun _ => rfl⟩
    exact ⟨d, by rw [hattempt]⟩
  · rintro ⟨d, houtcome⟩
    obtain ⟨read, run, hrun, -, hitem, -⟩ := item_of_outcome hfirst hrest houtcome
    cases hitem with
    | declaration h => exact ⟨_, _, d, by rw [hrun, List.map_append], h⟩

theorem not_reserved_of_reads {stage last : Stage} {read : List Feed.Entry}
    (h : stage.Reads (read.map Feed.Entry.token) last) :
    ∀ entry ∈ read.tail, entry.token.isReserved = false := by
  intro entry hmem
  have hkeyword := h.keyword?_eq_none_of_mem_tail entry.token
    (by rw [← List.map_tail]; exact List.mem_map_of_mem hmem)
  rw [Token.isReserved, hkeyword]
  rfl

theorem not_reserved_of_finishes {stage last : Stage} {init : List Feed.Entry}
    {entry : Feed.Entry} {outcome : Except GrammarError Item}
    (h : stage.Reads (init.map Feed.Entry.token) last)
    (hfinish : last.Finishes entry.token outcome) :
    ∀ e ∈ (init ++ [entry]).tail, e.token.isReserved = false := by
  cases init with
  | nil => exact nofun
  | cons begin init =>
    rw [List.cons_append, List.tail_cons, List.forall_mem_append, List.forall_mem_singleton]
    refine ⟨not_reserved_of_reads h, ?_⟩
    rw [Token.isReserved, hfinish.keyword?_eq_none]
    rfl

/-! ## Failures and faults -/

theorem fault_of_overflow {init run : List Feed.Entry} {entry : Feed.Entry} {last : Stage}
    {next : Token} {g : GrammarError}
    (hreads : Stage.Reads (.atItem declared) (init.map Feed.Entry.token) last)
    (hfinish : last.Finishes entry.token (.error g)) :
    Fault before next ((init ++ entry :: run).map Feed.Entry.token) g := by
  obtain ⟨t, errors⟩ := entry
  cases hfinish with
  | overflow hdigits =>
    rcases hreads.cases_atItem with ⟨-, hlast⟩ | ⟨_, -, -, hlast⟩ | ⟨kind, start, ⟨-, hlast⟩ |
      ⟨name, nameSpan, ⟨-, hlast⟩ | ⟨markSpan, htokens, hlast⟩⟩⟩
    · cases hlast
    · cases hlast
    · cases hlast
    · cases hlast
    · cases hlast
      rw [List.map_append, htokens, List.map_cons]
      refine .overflow ?_
      intro n hn
      rw [Decimal.int64?_eq_some_iff.2 hn] at hdigits
      cases hdigits

theorem fault_of_misplaced {entry : Feed.Entry} {run : List Feed.Entry} {next : Token}
    (hdeclared : declared = true ↔ Declared before) (hentry : entry.token.isReserved = true)
    (hrefuse : (Stage.atItem declared).step entry.token = .refuse) :
    Fault before next ((entry :: run).map Feed.Entry.token)
      ((Stage.atItem declared).unexpected entry.token) := by
  obtain ⟨rfl, span, hspan⟩ := Stage.eq_import_of_refuse hentry hrefuse
  rw [List.map_cons, hspan]
  exact .misplaced (hdeclared.1 rfl)

theorem fault_of_refuse {read run : List Feed.Entry} {last : Stage}
    (hdeclared : declared = true ↔ Declared before) (heof : eof.kind = .eof)
    (hkinds : ∀ entry ∈ run ++ rest, entry.token.kind ≠ .eof) (hne : read ≠ [])
    (hreads : Stage.Reads (.atItem declared) (read.map Feed.Entry.token) last)
    (hrefuse : ∀ entry ∈ (run ++ rest).head?, last.step entry.token = .refuse) :
    Fault before (Feed.front eof rest) ((read ++ run).map Feed.Entry.token)
      (last.unexpected (Feed.front eof (run ++ rest))) := by
  have hne : read.map Feed.Entry.token ≠ [] := by simpa using hne
  have hfound : (Feed.front eof (run ++ rest)).kind.tokenClass ∉ last.expected := by
    cases hleft : run ++ rest with
    | nil =>
      rw [Feed.front, heof]
      exact (hreads.isInside_of_ne_nil hne).eof_notMem_expected
    | cons entry left =>
      rw [hleft] at hrefuse hkinds
      exact (Stage.step_eq_refuse_iff (hkinds entry List.mem_cons_self)).1 (hrefuse entry rfl)
  obtain ⟨more, hmore⟩ : ∃ more, run.map Feed.Entry.token ++ [Feed.front eof rest] =
      Feed.front eof (run ++ rest) :: more := by
    cases run with
    | nil => exact ⟨[], rfl⟩
    | cons entry run => exact ⟨_, rfl⟩
  have happend : (read ++ run).map Feed.Entry.token ++ [Feed.front eof rest] =
      read.map Feed.Entry.token ++ Feed.front eof (run ++ rest) :: more := by
    rw [List.map_append, List.append_assoc, hmore]
  exact .unexpected happend (fits_of_reads hdeclared hreads hne) hfound

/-- What is wrong with a chunk that goes on behind an item is the first token there. -/
theorem fault_of_item {item : Item} {read run : List Feed.Entry} {entry : Feed.Entry}
    {next : Token} (hdeclared : declared = true ↔ Declared before)
    (hitem : DerivesItem (read.map Feed.Entry.token) item)
    (horder : declared = true → item.isDeclaration = true)
    (hentry : entry.token.isReserved = false) (hkind : entry.token.kind ≠ .eof) :
    Fault before next ((read ++ entry :: run).map Feed.Entry.token)
      ((Stage.atItem (declared || item.isDeclaration)).unexpected entry.token) := by
  have happend : (read ++ entry :: run).map Feed.Entry.token ++ [next] =
      read.map Feed.Entry.token ++ entry.token :: (run.map Feed.Entry.token ++ [next]) := by
    simp
  exact .unexpected happend (fits_of_item hdeclared hitem horder)
    (tokenClass_notMem_atItem hentry hkind)

/-- What is wrong with a leading run is its first token. -/
theorem fault_of_run {run : List Feed.Entry} {entry : Feed.Entry} {next : Token}
    (hentry : entry.token.isReserved = false) (hkind : entry.token.kind ≠ .eof) :
    Fault [] next ((entry :: run).map Feed.Entry.token)
      ((Stage.atItem false).unexpected entry.token) := by
  have hnone : ¬ Declared [] := by simp [Declared]
  have happend : (entry :: run).map Feed.Entry.token ++ [next] =
      [] ++ entry.token :: (run.map Feed.Entry.token ++ [next]) := rfl
  exact .unexpected happend (.nil hnone) (tokenClass_notMem_atItem hentry hkind)

/-- Where an attempt at a chunk fails, it fails with what is wrong with the chunk, and the pass goes
on to the end of the chunk. -/
theorem fault_of_attempt {g : GrammarError} (hdeclared : declared = true ↔ Declared before)
    (heof : eof.kind = .eof) (hkinds : ∀ entry ∈ first ++ rest, entry.token.kind ≠ .eof)
    (hfirst : BeginsWithWord (first.map Feed.Entry.token)) (hrest : AtItems rest)
    (h : (attempt eof (.atItem declared) (first ++ rest)).outcome = .error g) :
    Fault before (Feed.front eof rest) (first.map Feed.Entry.token) g ∧
      ∃ read run, Pass.ofAttempt (attempt eof (.atItem declared) (first ++ rest)) =
        (⟨.error g, read, run⟩, rest) := by
  rcases attempt_cases eof (.atItem declared) (first ++ rest) with
    ⟨init, last, entry, left, outcome, happend, hreads, hfinish, hattempt⟩ |
    ⟨read, last, left, happend, hreads, hrefuse, hattempt⟩
  · rw [hattempt] at h ⊢
    obtain rfl : outcome = .error g := h
    rw [List.append_cons] at happend
    obtain ⟨run, rfl, rfl, hrun⟩ := exists_run_of_append hfirst hrest happend (by simp)
      (not_reserved_of_finishes hreads hfinish)
    rw [← List.append_cons]
    exact ⟨fault_of_overflow hreads hfinish, _, run, ofAttempt_of_read (by simp) hrun hrest⟩
  · rw [hattempt] at h ⊢
    cases h
    cases read with
    | nil =>
      cases hreads
      obtain rfl : first ++ rest = left := happend
      generalize htokens : first.map Feed.Entry.token = tokens at hfirst
      cases hfirst with
      | intro hword hrun =>
        obtain ⟨begin, run, rfl, rfl, rfl⟩ := List.map_eq_cons_iff.1 htokens
        refine ⟨fault_of_misplaced hdeclared hword (hrefuse begin rfl), [], begin :: run, ?_⟩
        exact ofAttempt_of_read_eq_nil (List.forall_mem_map.1 hrun) hrest
    | cons begin read =>
      obtain ⟨run, rfl, rfl, hrun⟩ := exists_run_of_append hfirst hrest happend
        (List.cons_ne_nil _ _) (not_reserved_of_reads hreads)
      have hkinds : ∀ entry ∈ run ++ rest, entry.token.kind ≠ .eof := by
        intro entry hmem
        exact hkinds entry (by rw [List.append_assoc]; exact List.mem_append_right _ hmem)
      have hne : begin :: read ≠ [] := List.cons_ne_nil _ _
      exact ⟨fault_of_refuse hdeclared heof hkinds hne hreads hrefuse, _, run,
        ofAttempt_of_read hne hrun hrest⟩

end Chunk

/-! ## Chunks in a row -/

section

variable {eof : Token} {declared : Bool} {before chunks : List Chunk}
  {first rest entries : List Feed.Entry}

/-- The passes over a chunk make its error if the chunk is ill formed, and no error otherwise. -/
theorem Faults.of_chunk (hdeclared : declared = true ↔ Chunk.Declared before)
    (heof : eof.kind = .eof) (hkinds : ∀ entry ∈ first ++ rest, entry.token.kind ≠ .eof)
    (hfirst : Chunk.BeginsWithWord (first.map Feed.Entry.token)) (hrest : AtItems rest)
    (hfront : Feed.front eof rest = frontOfChunks eof chunks)
    (later : ∀ declared',
      (declared' = true ↔ Chunk.Declared (before ++ [first.map Feed.Entry.token])) →
        Faults eof (before ++ [first.map Feed.Entry.token]) chunks
          ((passes eof declared' rest).flatMap Pass.rejection)) :
    Faults eof before (first.map Feed.Entry.token :: chunks)
      ((passes eof declared (first ++ rest)).flatMap Pass.rejection) := by
  have hne : first ≠ [] := by simpa using hfirst.ne_nil
  cases houtcome : (attempt eof (.atItem declared) (first ++ rest)).outcome with
  | error g =>
    obtain ⟨hfault, read, run, hpass⟩ :=
      Chunk.fault_of_attempt hdeclared heof hkinds hfirst hrest houtcome
    rw [passes_of_failure (by simp [hne]) hpass]
    rw [hfront] at hfault
    refine .illFormed ?_ hfault (later declared ?_)
    · rw [Chunk.wellFormed_iff_attempt eof rest hdeclared hne]
      rintro ⟨item, hattempt⟩
      rw [hattempt] at houtcome
      cases houtcome
    · rw [Chunk.declared_append, hdeclared,
        Chunk.declares_iff_outcome eof declared hfirst hrest, houtcome]
      simp
  | ok item =>
    have hafter : (declared || item.isDeclaration) = true ↔
        Chunk.Declared (before ++ [first.map Feed.Entry.token]) := by
      rw [Chunk.declared_append, Bool.or_eq_true, hdeclared,
        Chunk.declares_iff_outcome eof declared hfirst hrest, houtcome]
      cases item <;> simp [Item.isDeclaration]
    have hlater := later _ hafter
    obtain ⟨read, run, rfl, hattempt, hitem, horder, hrun⟩ :=
      Chunk.item_of_outcome hfirst hrest houtcome
    rw [passes_of_attempt hattempt, List.flatMap_cons, Pass.rejection_of_ok rfl, List.nil_append]
    cases run with
    | nil =>
      rw [List.append_nil] at hne hattempt hlater ⊢
      have hwell := (Chunk.wellFormed_iff_attempt eof rest hdeclared hne).2 ⟨item, hattempt⟩
      exact .wellFormed hwell hlater
    | cons entry run =>
      rw [passes_of_run hrun hrest]
      refine .illFormed ?_ ?_ hlater
      · rw [Chunk.wellFormed_iff_attempt eof rest hdeclared hne]
        rintro ⟨_, hattempt'⟩
        rw [hattempt] at hattempt'
        simp at hattempt'
      · exact Chunk.fault_of_item hdeclared hitem horder (hrun entry List.mem_cons_self)
          (hkinds entry (by simp))

theorem atItems_of_chunks (hchunks : ∀ chunk ∈ chunks, chunk.BeginsWithWord)
    (h : rest.map Feed.Entry.token = chunks.flatten) : AtItems rest := by
  cases chunks with
  | nil =>
    obtain rfl := List.map_eq_nil_iff.1 h
    exact nofun
  | cons chunk chunks =>
    cases hchunks chunk List.mem_cons_self with
    | intro hword =>
      obtain ⟨entry, rest, rfl, rfl, -⟩ := List.map_eq_cons_iff.1 h
      intro other hother
      cases hother
      exact hword

theorem front_eq_frontOfChunks (h : rest.map Feed.Entry.token = chunks.flatten) :
    Feed.front eof rest = frontOfChunks eof chunks := by
  rw [frontOfChunks, ← h]
  cases rest <;> rfl

/-- The passes over a row of chunks make the errors of the ill-formed ones. -/
theorem Faults.of_chunks (heof : eof.kind = .eof)
    (hchunks : ∀ chunk ∈ chunks, chunk.BeginsWithWord)
    (hdeclared : declared = true ↔ Chunk.Declared before)
    (hkinds : ∀ entry ∈ entries, entry.token.kind ≠ .eof)
    (h : entries.map Feed.Entry.token = chunks.flatten) :
    Faults eof before chunks ((passes eof declared entries).flatMap Pass.rejection) := by
  induction chunks generalizing declared before entries with
  | nil =>
    obtain rfl := List.map_eq_nil_iff.1 h
    rw [passes_nil]
    exact .nil
  | cons chunk chunks ih =>
    obtain ⟨first, rest, rfl, rfl, hrest⟩ := List.map_eq_append_iff.1 h
    obtain ⟨hfirst, hlater⟩ := List.forall_mem_cons.1 hchunks
    refine .of_chunk hdeclared heof hkinds hfirst (atItems_of_chunks hlater hrest)
      (front_eq_frontOfChunks hrest) ?_
    intro declared' hdeclared'
    exact ih hlater hdeclared' (List.forall_mem_append.1 hkinds).2 hrest

/-- The passes over tokens make the errors of the leading run and of the chunks behind it. -/
theorem Faults.of_tokens (heof : eof.kind = .eof)
    (hkinds : ∀ entry ∈ entries, entry.token.kind ≠ .eof) :
    Faults eof [] ((cutAtWords (entries.map Feed.Entry.token)).1 ::
        (cutAtWords (entries.map Feed.Entry.token)).2)
      ((passes eof false entries).flatMap Pass.rejection) := by
  obtain ⟨happend, hleading, hchunks⟩ := cutAtWords_spec (entries.map Feed.Entry.token)
  generalize (cutAtWords (entries.map Feed.Entry.token)).1 = leading at *
  generalize (cutAtWords (entries.map Feed.Entry.token)).2 = chunks at *
  obtain ⟨run, rest, rfl, rfl, hrest⟩ := List.map_eq_append_iff.1 happend
  have hdeclared : false = true ↔ Chunk.Declared ([] ++ [run.map Feed.Entry.token]) := by
    refine iff_of_false Bool.false_ne_true ?_
    rintro ⟨_, hmem, tokens, more, d, rfl, hd⟩
    rw [← List.mem_singleton.1 hmem] at hleading
    exact Chunk.not_isRun_of_derivesItem (.declaration hd) hleading
  have hlater := Faults.of_chunks heof hchunks hdeclared (List.forall_mem_append.1 hkinds).2 hrest
  cases run with
  | nil => exact .wellFormed .empty hlater
  | cons entry run =>
    rw [passes_of_run (List.forall_mem_map.1 hleading) (atItems_of_chunks hchunks hrest)]
    refine .illFormed ?_ ?_ hlater
    · rw [hleading.wellFormed_iff]
      exact List.cons_ne_nil _ _
    · exact Chunk.fault_of_run (hleading entry.token List.mem_cons_self)
        (hkinds entry List.mem_cons_self)

end

/-! ## Source texts -/

namespace Feed

theorem filterMap_token?_lexemes (feed : Feed) :
    feed.lexemes.filterMap Lexeme.token? = feed.entries.map Entry.token ++ [feed.eof] := by
  have herrors (errors : List LexicalError) :
      (errors.map Lexeme.error).filterMap Lexeme.token? = [] := by
    rw [List.filterMap_eq_nil_iff, List.forall_mem_map]
    exact fun _ _ => rfl
  have hrow (entries : List Entry) :
      (row feed.eof entries).filterMap Lexeme.token? = entries.map Entry.token ++ [feed.eof] := by
    induction entries with
    | nil => rfl
    | cons entry entries ih =>
      rw [row_cons, List.filterMap_cons, List.filterMap_append, herrors, ih]
      rfl
  rw [lexemes, List.filterMap_append, herrors, hrow, List.nil_append]

theorem tokens_eq (source : String) :
    tokens source = (ofString source).entries.map Entry.token ++ [(ofString source).eof] := by
  rw [← filterMap_token?_lexemes, lexemes_ofString, tokens]

end Feed

/-- Where there is no lexical error, giving all errors gives exactly one for each ill-formed part of
the text: for the leading run unless it is empty, and for each chunk that is not an item in its
place.  A text is accepted exactly when nothing is ill formed. -/
theorem parseAll_faults {source : String} (h : lexicalErrors source = []) :
    ∃ body eof errors, tokens source = body ++ [eof] ∧ eof.kind = .eof ∧
      (∀ t ∈ body, t.kind ≠ .eof) ∧
      Faults eof [] ((cutAtWords body).1 :: (cutAtWords body).2) errors ∧
      (∀ others, Faults eof [] ((cutAtWords body).1 :: (cutAtWords body).2) others →
        others = errors) ∧
      errorList (parseAll source) = errors.map .grammar ∧
      ((∃ file, parseAll source = .ok file) ↔
        ∀ before chunk after, (cutAtWords body).1 :: (cutAtWords body).2 =
          before ++ chunk :: after → chunk.WellFormed before) := by
  have horder := Lexeme.inOrder_ofString source
  rw [← Feed.lexemes_ofString] at horder
  have heof : (Feed.ofString source).eof.kind = .eof := Feed.eof_kind_behind _ _
  have hkinds : ∀ entry ∈ (Feed.ofString source).entries, entry.token.kind ≠ .eof :=
    fun entry hmem => (Feed.token_mem_of_behind hmem).2
  have hfaults := Faults.of_tokens heof hkinds
  have herrors : errorList (parseAll source) =
      ((Feed.ofString source).rejections).map .grammar := by
    rw [parseAll, ← Feed.errorList_bare horder, ← Feed.ofTokens_tokens,
      ← Feed.ofString_eq_ofTokens h]
  have hok : (∃ file, parseAll source = .ok file) ↔ errorList (parseAll source) = [] :=
    Feed.errorList_eq_nil_iff.symm
  refine ⟨_, _, _, Feed.tokens_eq source, heof, List.forall_mem_map.2 hkinds, hfaults,
    fun others hothers => hothers.unique hfaults, herrors, ?_⟩
  rw [hok, herrors, List.map_eq_nil_iff]
  exact hfaults.eq_nil_iff

theorem parseAll_faults_misplaced_import :
    lexicalErrors "1 var x = 2 3 import \"a\" func" = [] ∧
    ∃ body eof errors, tokens "1 var x = 2 3 import \"a\" func" = body ++ [eof] ∧
      eof.kind = .eof ∧ (∀ t ∈ body, t.kind ≠ .eof) ∧
      Faults eof [] ((cutAtWords body).1 :: (cutAtWords body).2) errors ∧
      (∀ others, Faults eof [] ((cutAtWords body).1 :: (cutAtWords body).2) others →
        others = errors) ∧
      errorList (parseAll "1 var x = 2 3 import \"a\" func") = errors.map .grammar ∧
      ((∃ file, parseAll "1 var x = 2 3 import \"a\" func" = .ok file) ↔
        ∀ before chunk after, (cutAtWords body).1 :: (cutAtWords body).2 =
          before ++ chunk :: after → chunk.WellFormed before) :=
  ⟨by decide +kernel, parseAll_faults (by decide +kernel)⟩

/-- A leading run, something behind a declaration, an import too late and a chunk too short. -/
example : (Feed.ofString "1 var x = 2 3 import \"a\" func").rejections =
    [.unexpectedToken [.keyword .import, .keyword .func, .keyword .var, .eof]
      ⟨.int "1", ⟨0, 1, 1, 1⟩⟩,
     .unexpectedToken [.keyword .func, .keyword .var, .eof] ⟨.int "3", ⟨12, 13, 1, 13⟩⟩,
     .unexpectedToken [.keyword .func, .keyword .var, .eof]
      ⟨.keyword .import, ⟨14, 20, 1, 15⟩⟩,
     .unexpectedToken [.ident] ⟨.eof, ⟨29, 29, 1, 30⟩⟩] := by decide +kernel

end DeclLang
