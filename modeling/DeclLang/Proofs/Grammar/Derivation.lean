import DeclLang.Grammar.Parse
import DeclLang.Proofs.Decimal
import DeclLang.Proofs.Grammar.Feed
import DeclLang.Proofs.Grammar.Stage

/-!
# The grammar of source files

The grammar, stated apart from the functions that read by it.  A source file is a row of imports
and behind it a row of declarations; `Derives tokens file` says that the tokens are those of the
tree, in order, and that the spans of the tree are the ones that the tokens give it.

`Feed.parse_eq_ok_iff` says that a feed is accepted exactly when it has no lexical error and its
tokens derive a tree, and that it makes that tree.  It goes by way of `DerivesItems`, a grammar of
items in which the rule that imports come first is a flag, as it is in `passes`.
-/

namespace DeclLang

/-! ## The grammar -/

/-- An import is the word `import` and a string, and has the span of the string. -/
inductive DerivesImport : List Token → Spanned String → Prop where
  | intro {start span : Span} {path : String} :
      DerivesImport [⟨.keyword .import, start⟩, ⟨.string path, span⟩] ⟨path, span⟩

/-- The literals: a string stands for itself, and digits for the signed 64-bit integer that they
are written as. -/
inductive DerivesLiteral : Token.Kind → Literal → Prop where
  | string {text : String} : DerivesLiteral (.string text) (.string text)
  | integer {digits : String} {n : Int64} (h : Decimal.integer? digits.toList = some n.toInt) :
      DerivesLiteral (.int digits) (.integer n)

/-- A declaration is `func` or `var`, a name, the mark `=` and a literal, and has the span from the
word to the literal. -/
inductive DerivesDeclaration : List Token → Spanned Declaration → Prop where
  | intro {kind : Declaration.Kind} {name : String} {literal : Token.Kind} {value : Literal}
      {start nameSpan markSpan span : Span} (h : DerivesLiteral literal value) :
      DerivesDeclaration
        [⟨.keyword kind.keyword, start⟩, ⟨.ident name, nameSpan⟩, ⟨.punctuation .eq, markSpan⟩,
          ⟨literal, span⟩]
        ⟨⟨kind, name, value⟩, start.merge span⟩

/-- A row of things, each derived from its own tokens. -/
inductive DerivesRow {α : Type} (R : List Token → α → Prop) : List Token → List α → Prop where
  | nil : DerivesRow R [] []
  | cons {tokens more : List Token} {a : α} {as : List α} (h : R tokens a)
      (later : DerivesRow R more as) : DerivesRow R (tokens ++ more) (a :: as)

/-- A thing in a row is derived from some tokens of the row that stand together. -/
theorem DerivesRow.exists_infix_of_mem {α : Type} {R : List Token → α → Prop} {tokens : List Token}
    {as : List α} (h : DerivesRow R tokens as) {a : α} (ha : a ∈ as) :
    ∃ part, part <:+: tokens ∧ R part a := by
  induction h with
  | nil => cases ha
  | @cons part more _ _ hfirst _ ih =>
    rcases List.mem_cons.1 ha with rfl | hlater
    · exact ⟨part, (List.prefix_append part more).isInfix, hfirst⟩
    · obtain ⟨part', hsub, hpart⟩ := ih hlater
      exact ⟨part', hsub.trans (List.suffix_append part more).isInfix, hpart⟩

/-- A source file is a row of imports with a row of declarations behind it. -/
def Derives (tokens : List Token) (file : SourceFile) : Prop :=
  ∃ imports declarations, tokens = imports ++ declarations ∧
    DerivesRow DerivesImport imports file.imports ∧
    DerivesRow DerivesDeclaration declarations file.declarations

/-! ## Items -/

inductive DerivesItem : List Token → Item → Prop where
  | import {tokens : List Token} {path : Spanned String} (h : DerivesImport tokens path) :
      DerivesItem tokens (.import path)
  | declaration {tokens : List Token} {d : Spanned Declaration} (h : DerivesDeclaration tokens d) :
      DerivesItem tokens (.declaration d)

/-- A row of items in which no import comes behind a declaration; `declared` tells whether there
has been one before the row. -/
inductive DerivesItems : Bool → List Token → List Item → Prop where
  | nil {declared : Bool} : DerivesItems declared [] []
  | cons {declared : Bool} {tokens more : List Token} {item : Item} {items : List Item}
      (h : DerivesItem tokens item) (horder : declared = true → item.isDeclaration = true)
      (later : DerivesItems (declared || item.isDeclaration) more items) :
      DerivesItems declared (tokens ++ more) (item :: items)

theorem derivesLiteral_iff_finishes {kind : Declaration.Kind} {start span : Span} {name : String}
    {literal : Token.Kind} {item : Item} :
    Stage.Finishes (.atValue kind start name) ⟨literal, span⟩ (.ok item) ↔
      ∃ value, DerivesLiteral literal value ∧
        item = .declaration ⟨⟨kind, name, value⟩, start.merge span⟩ := by
  constructor
  · intro h
    cases h with
    | string => exact ⟨_, .string, rfl⟩
    | integer hdigits => exact ⟨_, .integer (Decimal.int64?_eq_some_iff.1 hdigits), rfl⟩
  · rintro ⟨value, hvalue, rfl⟩
    cases hvalue with
    | string => exact .string
    | integer hdigits => exact .integer (Decimal.int64?_eq_some_iff.2 hdigits)

/-- The stages of an item follow the grammar: an item can be completed from its beginning exactly
when it is derived from the tokens and may stand there. -/
theorem completes_iff_derivesItem {declared : Bool} {tokens : List Token} {item : Item} :
    Stage.Completes (.atItem declared) tokens item ↔
      DerivesItem tokens item ∧ (declared = true → item.isDeclaration = true) := by
  constructor
  · intro h
    cases h with
    | finish h => cases h
    | goOn h more =>
      cases h with
      | «import» =>
        cases more with
        | goOn h => cases h
        | finish h =>
          cases h
          exact ⟨.import .intro, nofun⟩
      | declaration =>
        cases more with
        | finish h => cases h
        | goOn h more =>
          cases h
          cases more with
          | finish h => cases h
          | goOn h more =>
            cases h
            cases more with
            | goOn h => cases h
            | @finish _ t _ h =>
              obtain ⟨value, hvalue, rfl⟩ := derivesLiteral_iff_finishes.1 h
              exact ⟨.declaration (.intro hvalue), fun _ => rfl⟩
  · rintro ⟨h, horder⟩
    cases h with
    | «import» h =>
      cases h
      cases declared with
      | true => cases horder rfl
      | false => exact .goOn .import (.finish .path)
    | declaration h =>
      cases h with
      | intro hvalue =>
        refine .goOn .declaration (.goOn .name (.goOn .mark (.finish ?_)))
        exact derivesLiteral_iff_finishes.2 ⟨_, hvalue, rfl⟩

/-! ## Passes without a problem -/

theorem Pass.lexicalErrors_eq_nil_iff {entries : List Feed.Entry} :
    lexicalErrors entries = [] ↔ ∀ entry ∈ entries, entry.errors = [] := by
  simp [lexicalErrors, List.flatMap_eq_nil_iff]

theorem Pass.problem?_eq_none_iff {p : Pass} :
    p.problem? = none ↔ (∀ entry ∈ p.read, entry.errors = []) ∧ ∃ item, p.outcome = .ok item := by
  rw [← lexicalErrors_eq_nil_iff]
  unfold problem?
  split
  · next h => simp [h]
  · next h houtcome => simp [houtcome]
  · next h houtcome => simp [h, houtcome]

theorem passes_of_attempt {eof : Token} {declared : Bool} {entries read rest : List Feed.Entry}
    {item : Item} (h : attempt eof (.atItem declared) entries = ⟨.ok item, read, rest⟩) :
    passes eof declared entries =
      ⟨.ok item, read, []⟩ :: passes eof (declared || item.isDeclaration) rest := by
  cases entries with
  | nil => cases h
  | cons entry entries =>
    rw [passes, h]
    rfl

/-- A pass without a problem is an attempt that found an item. -/
theorem attempt_of_problem?_eq_none {a : Attempt} (h : (Pass.ofAttempt a).1.problem? = none) :
    ∃ item read rest, a = ⟨.ok item, read, rest⟩ ∧ ∀ entry ∈ read, entry.errors = [] := by
  obtain ⟨outcome, read, rest⟩ := a
  obtain ⟨hread, item, houtcome⟩ := Pass.problem?_eq_none_iff.1 h
  cases outcome with
  | ok found => exact ⟨found, read, rest, rfl, hread⟩
  | error e =>
    unfold Pass.ofAttempt at houtcome
    split at houtcome <;> simp_all

theorem derivesItems_of_passes {eof : Token} {declared : Bool} {entries : List Feed.Entry}
    (h : ∀ p ∈ passes eof declared entries, p.problem? = none) :
    (∀ entry ∈ entries, entry.errors = []) ∧
      DerivesItems declared (entries.map Feed.Entry.token)
        ((passes eof declared entries).filterMap Pass.item?) := by
  induction declared, entries using passes.induct eof with
  | case1 =>
    rw [passes_nil]
    exact ⟨by simp, .nil⟩
  | case2 declared entry entries step ih =>
    have hfirst : step.1.problem? = none := by
      rw [passes] at h
      exact h _ List.mem_cons_self
    obtain ⟨item, read, rest, hattempt, hread⟩ := attempt_of_problem?_eq_none hfirst
    obtain ⟨happend, hcompletes⟩ := attempt_eq_ok_iff.1 hattempt
    obtain ⟨hitem, horder⟩ := completes_iff_derivesItem.1 hcompletes
    have hstep : step = (⟨.ok item, read, []⟩, rest) := congrArg Pass.ofAttempt hattempt
    rw [passes_of_attempt hattempt] at h ⊢
    rw [hstep] at ih
    obtain ⟨herrors, hitems⟩ := ih (List.forall_mem_cons.1 h).2
    rw [happend, List.forall_mem_append, List.map_append]
    exact ⟨⟨hread, herrors⟩, .cons hitem horder hitems⟩

theorem passes_of_derivesItems {eof : Token} {declared : Bool} {entries : List Feed.Entry}
    {items : List Item} (herrors : ∀ entry ∈ entries, entry.errors = [])
    (h : DerivesItems declared (entries.map Feed.Entry.token) items) :
    (∀ p ∈ passes eof declared entries, p.problem? = none) ∧
      (passes eof declared entries).filterMap Pass.item? = items := by
  generalize htokens : entries.map Feed.Entry.token = tokens at h
  induction h generalizing entries with
  | nil =>
    obtain rfl := List.map_eq_nil_iff.1 htokens
    simp
  | @cons declared tokens more item items hitem horder _ ih =>
    obtain ⟨read, rest, rfl, hread, hrest⟩ := List.map_eq_append_iff.1 htokens
    have hcompletes := completes_iff_derivesItem.2 ⟨hitem, horder⟩
    rw [← hread] at hcompletes
    have hattempt : attempt eof (.atItem declared) (read ++ rest) = ⟨.ok item, read, rest⟩ :=
      attempt_eq_ok_iff.2 ⟨rfl, hcompletes⟩
    rw [List.forall_mem_append] at herrors
    obtain ⟨hlater, hitems⟩ := ih herrors.2 hrest
    rw [passes_of_attempt hattempt]
    constructor
    · rw [List.forall_mem_cons]
      exact ⟨Pass.problem?_eq_none_iff.2 ⟨herrors.1, item, rfl⟩, hlater⟩
    · rw [List.filterMap_cons, hitems]
      rfl

/-! ## Source files -/

theorem derives_ofItems {declared : Bool} {tokens : List Token} {items : List Item}
    (h : DerivesItems declared tokens items) : Derives tokens (.ofItems items) ∧
      (declared = true → DerivesRow DerivesDeclaration tokens (items.filterMap Item.declaration?) ∧
        items.filterMap Item.import? = []) := by
  induction h with
  | nil => exact ⟨⟨[], [], rfl, .nil, .nil⟩, fun _ => ⟨.nil, rfl⟩⟩
  | @cons declared tokens more item items hitem horder _ ih =>
    cases hitem with
    | «import» h =>
      -- Nothing has been declared yet, so what is behind is derived without a condition.
      have hfirst : declared = false := by
        cases declared with
        | false => rfl
        | true => cases horder rfl
      obtain ⟨imports, declarations, rfl, himports, hdeclarations⟩ := ih.1
      refine ⟨⟨tokens ++ imports, declarations, by simp, .cons h himports, hdeclarations⟩, ?_⟩
      rw [hfirst]
      exact nofun
    | declaration h =>
      obtain ⟨hrow, hnone⟩ := ih.2 (Bool.or_true declared)
      have hrow' := DerivesRow.cons h hrow
      refine ⟨⟨[], tokens ++ more, rfl, ?_, hrow'⟩, fun _ => ⟨hrow', hnone⟩⟩
      simp only [SourceFile.ofItems, List.filterMap_cons, Item.import?, hnone]
      exact .nil

theorem DerivesRow.items {declared : Bool} {tokens : List Token} {ds : List (Spanned Declaration)}
    (h : DerivesRow DerivesDeclaration tokens ds) :
    DerivesItems declared tokens (ds.map .declaration) := by
  induction h generalizing declared with
  | nil => exact .nil
  | cons h _ ih => exact .cons (.declaration h) (fun _ => rfl) ih

/-- The tokens of a tree make its imports and behind them its declarations. -/
theorem Derives.items {tokens : List Token} {file : SourceFile} (h : Derives tokens file) :
    DerivesItems false tokens
      (file.imports.map .import ++ file.declarations.map .declaration) := by
  obtain ⟨importPaths, ds⟩ := file
  obtain ⟨imports, declarations, rfl, himports, hdeclarations⟩ := h
  dsimp only at himports hdeclarations ⊢
  induction himports with
  | nil => exact hdeclarations.items
  | cons h _ ih =>
    rw [List.append_assoc, List.map_cons, List.cons_append]
    exact .cons (.import h) nofun ih

theorem SourceFile.ofItems_append (file : SourceFile) :
    ofItems (file.imports.map .import ++ file.declarations.map .declaration) = file := by
  obtain ⟨imports, declarations⟩ := file
  simp [ofItems, List.filterMap_append, List.filterMap_map, Function.comp_def, Item.import?,
    Item.declaration?]

theorem Feed.problem?_eq_none_iff {feed : Feed} :
    feed.problem? = none ↔ feed.leading = [] ∧ ∀ p ∈ feed.passes, p.problem? = none := by
  unfold problem?
  split
  · next h => simp [h]
  · next h => simp [h, List.findSome?_eq_none_iff]

/-- A feed is accepted if and only if it has no lexical error and its tokens derive a tree, and it
makes that tree. -/
theorem Feed.parse_eq_ok_iff {feed : Feed} {file : SourceFile} :
    feed.parse = .ok file ↔ feed.leading = [] ∧ (∀ entry ∈ feed.entries, entry.errors = []) ∧
      Derives (feed.entries.map Entry.token) file := by
  constructor
  · intro h
    unfold parse at h
    split at h
    · cases h
    · next hnone =>
      cases h
      obtain ⟨hleading, hpasses⟩ := problem?_eq_none_iff.1 hnone
      obtain ⟨herrors, hitems⟩ := derivesItems_of_passes hpasses
      exact ⟨hleading, herrors, (derives_ofItems hitems).1⟩
  · rintro ⟨hleading, herrors, hderives⟩
    obtain ⟨hpasses, hitems⟩ := passes_of_derivesItems herrors hderives.items
    have hnone : feed.problem? = none := problem?_eq_none_iff.2 ⟨hleading, hpasses⟩
    have hfile : feed.sourceFile = file := by
      rw [sourceFile, Feed.passes, hitems, SourceFile.ofItems_append]
    simp only [parse, hnone, hfile]

/-! ## Rows of tokens -/

/-- Reading a source text without lexical errors is reading its tokens. -/
theorem parse_eq_parseTokens {source : String} {tokens : List Token}
    (h : Lexeme.ofString source = tokens.map .token) : parse source = parseTokens tokens := by
  rw [parse, Feed.ofString, h]
  rfl

theorem parseTokens_eq_ok_iff {tokens : List Token} {file : SourceFile} :
    parseTokens tokens = .ok file ↔ Derives (beforeEof tokens) file := by
  obtain ⟨hleading, hlexical, htokens⟩ := Feed.ofTokens_fields tokens
  rw [parseTokens, Feed.parse_eq_ok_iff, htokens]
  exact ⟨fun h => h.2.2, fun h => ⟨hleading, hlexical, h⟩⟩

/-- The grammar is accepted exactly, for any row of tokens, and the tree is the one that the tokens
derive.  Tokens behind the first end of input have no influence, not even on an error. -/
theorem parseTokens_exact :
    (∀ tokens file, parseTokens tokens = .ok file ↔ Derives (beforeEof tokens) file) ∧
    ∀ before span after, parseTokens (before ++ ⟨.eof, span⟩ :: after) =
      parseTokens (before ++ [⟨.eof, span⟩]) := by
  refine ⟨fun _ _ => parseTokens_eq_ok_iff, ?_⟩
  intro before span after
  rw [parseTokens, parseTokens, Feed.ofTokens, Feed.ofTokens, Feed.ofLexemes, Feed.ofLexemes,
    Feed.behind_append_eof]

end DeclLang
