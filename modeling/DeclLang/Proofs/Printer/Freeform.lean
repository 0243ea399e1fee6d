import DeclLang.Proofs.Grammar.Agreement
import DeclLang.Proofs.Grammar.Unplaced
import DeclLang.Proofs.Printer.Canonical

/-!
# Tokens written in any way

The same tokens can be written in many ways: between them there may be blanks and comments, strings
may have either quotes, and a byte order mark may stand before everything.  `IsWriting` says which
source texts are writings of given kinds of tokens.  Trivia can be left out wherever the token
behind does not run into the one before (`Token.Kind.runsInto`).

All writings are read back as the tokens that were written, since no token goes on with what is
behind it (`Writes.goesOnWith_head`, `IsTrivia.goesOnWith_head`).  `writings_agree` concludes that
all writings of the same kinds come to the same tree or the same error, spans apart.
-/

namespace DeclLang

/-! ## Trivia -/

/-- Trivia that is complete: blanks, line comments together with the line feed that closes them, and
block comments. -/
inductive IsTrivia : List Char → Prop where
  | nil : IsTrivia []
  | blank {c : Char} {more : List Char} (h : c ∈ [' ', '\t', '\r', '\n']) (hmore : IsTrivia more) :
      IsTrivia (c :: more)
  | lineComment {body more : List Char} (hbody : '\n' ∉ body) (hmore : IsTrivia more) :
      IsTrivia ('/' :: '/' :: (body ++ '\n' :: more))
  | blockComment {body more : List Char} (hbody : Unclosed body) (hmore : IsTrivia more) :
      IsTrivia ('/' :: '*' :: (body ++ '*' :: '/' :: more))

/-- Trivia is not seen, whatever is behind it. -/
theorem IsTrivia.lexemeRoles_append {gap : List Char} (h : IsTrivia gap) (rest : List Char) :
    lexemeRoles (gap ++ rest) = lexemeRoles rest := by
  induction h with
  | nil => rfl
  | @blank c more hc _ ih =>
    have hblank : Spells .trivia [c] (more ++ rest) := .blank hc
    rw [← ih]
    exact hblank.lexemeRoles_trivia
  | @lineComment body more hbody _ ih =>
    have hcomment : Spells .trivia ('/' :: '/' :: body) ('\n' :: (more ++ rest)) :=
      .lineComment hbody (by simp [AtLineEnd])
    have hfeed : Spells .trivia ['\n'] (more ++ rest) := .blank (by simp)
    have happend : '/' :: '/' :: (body ++ '\n' :: more) ++ rest =
        ('/' :: '/' :: body) ++ '\n' :: (more ++ rest) := by simp
    rw [happend, hcomment.lexemeRoles_trivia, ← ih]
    exact hfeed.lexemeRoles_trivia
  | @blockComment body more hbody _ ih =>
    have hcomment : Spells .trivia ('/' :: '*' :: (body ++ ['*', '/'])) (more ++ rest) :=
      .blockComment hbody.concat_star
    have happend : '/' :: '*' :: (body ++ '*' :: '/' :: more) ++ rest =
        '/' :: '*' :: (body ++ ['*', '/']) ++ (more ++ rest) := by simp
    rw [happend, hcomment.lexemeRoles_trivia, ih]

/-! ## Single tokens -/

/-- `Writes kind text`: the text is one way to write a token of that kind. -/
inductive Writes : Token.Kind → List Char → Prop where
  | keyword {k : Keyword} : Writes (.keyword k) k.spelling.toList
  | mark {m : Punctuation} : Writes (.punctuation m) m.spelling.toList
  | name {name : String} (hname : IsName name) : Writes (.ident name) name.toList
  | number {digits : String} (hdigits : IsNumber digits.toList) : Writes (.int digits) digits.toList
  | string {value : String} (q : QuoteStyle) :
      Writes (.string value) (Quoted.encode q value).toList

namespace Token.Kind

/-- Whether a token of the kind `next`, right behind one of the kind `kind`, would be taken for a
part of it. -/
def runsInto (kind next : Kind) : Bool :=
  match kind, next with
  | .keyword _, .keyword _ | .keyword _, .ident _ | .keyword _, .int _ => true
  | .ident _, .keyword _ | .ident _, .ident _ | .ident _, .int _ => true
  | .int _, .int _ => true
  | _, _ => false

/-- Whether a character right behind a token is taken for a part of it. -/
def goesOnWith : Kind → Char → Bool
  | .keyword _ | .ident _ => isNamePart
  | .int _ => Char.isDigit
  | _ => fun _ => false

theorem goesOnWith_of_not_isNamePart {c : Char} (h : isNamePart c = false) (kind : Kind) :
    kind.goesOnWith c = false := by
  cases kind with
  | keyword word => exact h
  | ident name => exact h
  | int digits =>
    rw [goesOnWith, Bool.eq_false_iff]
    intro hdigit
    rw [isNamePart_of_isDigit hdigit] at h
    cases h
  | _ => rfl

/-- What no name runs into does not go on with the beginning of a word. -/
theorem goesOnWith_of_isNameStart {c : Char} (h : isNameStart c = true) {kind : Kind}
    {name : String} (hrun : kind.runsInto (.ident name) = false) :
    kind.goesOnWith c = false := by
  cases kind with
  | keyword word => cases hrun
  | ident first => cases hrun
  | int digits => exact isDigit_of_isNameStart h
  | _ => rfl

/-- What no number runs into does not go on with anything. -/
theorem goesOnWith_of_runsInto_int {kind : Kind} {digits : String}
    (hrun : kind.runsInto (.int digits) = false) (c : Char) : kind.goesOnWith c = false := by
  cases kind with
  | keyword word => cases hrun
  | ident first => cases hrun
  | int first => cases hrun
  | _ => rfl

end Token.Kind

namespace Writes

variable {kind next : Token.Kind} {text rest : List Char}

/-- A token is written as a piece of its kind wherever it does not go on with what is behind it. -/
theorem spells (h : Writes kind text) (hrest : ∀ c ∈ rest.head?, kind.goesOnWith c = false) :
    Spells (.token kind) text rest := by
  cases h with
  | keyword => exact .keyword hrest
  | mark => exact .mark
  | name hname => exact .name hname hrest
  | number hdigits => exact .number hdigits hrest
  | string q => exact spells_encode q _ rest

/-- A token does not go on with one that does not run into it. -/
theorem goesOnWith_head (h : Writes next text) (hrun : kind.runsInto next = false) :
    ∃ c cs, text = c :: cs ∧ kind.goesOnWith c = false := by
  cases h with
  | @keyword k =>
    obtain ⟨c, cs, htext, hc, -⟩ := isWord_spelling k
    have hname : kind.runsInto (.ident k.spelling) = false := by
      rw [← hrun]
      cases kind <;> rfl
    exact ⟨c, cs, htext, Token.Kind.goesOnWith_of_isNameStart hc hname⟩
  | @mark m =>
    cases m
    exact ⟨'=', [], rfl, Token.Kind.goesOnWith_of_not_isNamePart (by decide) kind⟩
  | name hname =>
    obtain ⟨c, cs, htext, hc, -⟩ := hname.1
    exact ⟨c, cs, htext, Token.Kind.goesOnWith_of_isNameStart hc hrun⟩
  | number hdigits =>
    obtain ⟨c, cs, htext, -⟩ := hdigits
    exact ⟨c, cs, htext, Token.Kind.goesOnWith_of_runsInto_int hrun c⟩
  | @string value q =>
    have hquote : isNamePart q.delimiter = false := by cases q <;> decide
    have htext : (Quoted.encode q value).toList =
        q.delimiter :: (Quoted.encodeBody q value.toList ++ [q.delimiter]) := by
      rw [Quoted.encode, String.toList_ofList, List.cons_append]
    exact ⟨_, _, htext, Token.Kind.goesOnWith_of_not_isNamePart hquote kind⟩

end Writes

/-- No token goes on with trivia. -/
theorem IsTrivia.goesOnWith_head {gap : List Char} (h : IsTrivia gap) (kind : Token.Kind) :
    ∀ c ∈ gap.head?, kind.goesOnWith c = false := by
  intro c hc
  refine kind.goesOnWith_of_not_isNamePart ?_
  cases h with
  | nil => cases hc
  | blank hblank =>
    cases hc
    rw [Bool.eq_false_iff]
    intro hpart
    have hnot := isBlank_of_isNamePart hpart
    rw [isBlank_iff.2 hblank] at hnot
    cases hnot
  | lineComment =>
    cases hc
    decide
  | blockComment =>
    cases hc
    decide

/-! ## Rows of tokens -/

/-- `WritesRow kinds text`: the text is one way to write tokens of those kinds one after another,
with trivia behind each.  There is some at least behind a token that the next would run into. -/
inductive WritesRow : List Token.Kind → List Char → Prop where
  | nil : WritesRow [] []
  | cons {kind : Token.Kind} {kinds : List Token.Kind} {text gap rest : List Char}
      (htext : Writes kind text) (hgap : IsTrivia gap)
      (hapart : gap = [] → ∀ next ∈ kinds.head?, kind.runsInto next = false)
      (hmore : WritesRow kinds rest) : WritesRow (kind :: kinds) (text ++ (gap ++ rest))

/-- The source text is one way to write tokens of those kinds, with trivia before, between and
behind them and perhaps a byte order mark before everything. -/
def IsWriting (source : String) (kinds : List Token.Kind) : Prop :=
  ∃ mark gap row, source.toList = mark ++ (gap ++ row) ∧ (mark = [] ∨ mark = ['\uFEFF']) ∧
    IsTrivia gap ∧ WritesRow kinds row

/-- A token does not go on with the row behind it, if the first token of the row does not run into
it. -/
theorem WritesRow.goesOnWith_head {kind : Token.Kind} {kinds : List Token.Kind} {row : List Char}
    (h : WritesRow kinds row) (hrun : ∀ next ∈ kinds.head?, kind.runsInto next = false) :
    ∀ c ∈ row.head?, kind.goesOnWith c = false := by
  intro c hc
  cases h with
  | nil => cases hc
  | cons htext =>
    obtain ⟨d, cs, rfl, hd⟩ := htext.goesOnWith_head (hrun _ rfl)
    cases hc
    exact hd

/-- A row that was written is cut up into the tokens that were written. -/
theorem WritesRow.lexemeRoles_eq {kinds : List Token.Kind} {row : List Char}
    (h : WritesRow kinds row) : lexemeRoles row = kinds.map .token := by
  induction h with
  | nil => exact lexemeRoles_nil
  | @cons kind kinds text gap rest htext hgap hapart hmore ih =>
    have hrest : ∀ c ∈ (gap ++ rest).head?, kind.goesOnWith c = false := by
      by_cases hnil : gap = []
      · rw [hnil, List.nil_append]
        exact hmore.goesOnWith_head (hapart hnil)
      · rw [List.head?_append_of_ne_nil _ hnil]
        exact hgap.goesOnWith_head kind
    rw [(htext.spells hrest).lexemeRoles_token, hgap.lexemeRoles_append, ih, List.map_cons]

/-! ## Source texts -/

/-- The lexemes of a writing are the tokens that were written. -/
theorem IsWriting.exists_tokens {source : String} {kinds : List Token.Kind}
    (h : IsWriting source kinds) :
    ∃ tokens : List Token, Lexeme.ofString source = tokens.map .token ∧
      tokens.map Token.kind = kinds ++ [.eof] := by
  obtain ⟨mark, gap, row, hsource, hmark, hgap, hrow⟩ := h
  have hroles : lexemeRoles (gap ++ row) = kinds.map .token := by
    rw [hgap.lexemeRoles_append, hrow.lexemeRoles_eq]
  refine exists_tokens_of_roles ?_
  rcases hmark with rfl | rfl
  · rw [List.nil_append] at hsource
    rw [← hsource] at hroles
    exact map_role_ofString hroles
  · exact map_role_ofString_of_mark hsource hroles

/-- Every writing is read back as the tokens that were written, without any error.  All writings of
the same tokens come to the same tree, or to the same error, spans apart: neither the trivia nor
the quotes nor the byte order mark have an influence. -/
theorem writings_agree {source : String} {kinds : List Token.Kind} (h : IsWriting source kinds) :
    (∃ tokens, lex source = .ok tokens ∧ tokens.map Token.kind = kinds ++ [.eof]) ∧
      ∀ other, IsWriting other kinds →
        unplacedOutcome (parse other) = unplacedOutcome (parse source) := by
  obtain ⟨tokens, hlexemes, hkinds⟩ := h.exists_tokens
  refine ⟨⟨tokens, lex_eq_ok_iff.2 hlexemes, hkinds⟩, ?_⟩
  intro other hother
  obtain ⟨others, hotherLexemes, hotherKinds⟩ := hother.exists_tokens
  rw [parse_eq_parseTokens hlexemes, parse_eq_parseTokens hotherLexemes]
  exact parseTokens_unplaced_of_kinds (hotherKinds.trans hkinds.symm)

/-- A quote in a comment behind a byte order mark, a name and a string that touch the mark between
them, and the quote of the string within it. -/
theorem writings_agree_touching :
    IsWriting "\uFEFF/*\"*/var x='a\\'b'//\n"
        [.keyword .var, .ident "x", .punctuation .eq, .string "a'b"] ∧
      ((∃ tokens, lex "\uFEFF/*\"*/var x='a\\'b'//\n" = .ok tokens ∧ tokens.map Token.kind =
        [.keyword .var, .ident "x", .punctuation .eq, .string "a'b"] ++ [.eof]) ∧
      ∀ other, IsWriting other [.keyword .var, .ident "x", .punctuation .eq, .string "a'b"] →
        unplacedOutcome (parse other) =
          unplacedOutcome (parse "\uFEFF/*\"*/var x='a\\'b'//\n")) := by
  have hcomment : IsTrivia ('/' :: '*' :: (['"'] ++ '*' :: '/' :: [])) :=
    .blockComment (by simp [unclosed_cons]) .nil
  have hspace : IsTrivia [' '] := .blank (by simp) .nil
  have hline : IsTrivia ('/' :: '/' :: ([] ++ '\n' :: [])) := .lineComment (by simp) .nil
  have hname : IsName "x" :=
    ⟨⟨'x', [], rfl, by decide, by simp⟩, fun k => by cases k <;> decide⟩
  have hstring := WritesRow.cons (@Writes.string "a'b" .single) hline (by simp) .nil
  have hmark := WritesRow.cons (@Writes.mark .eq) .nil (by simp [Token.Kind.runsInto]) hstring
  have hword := WritesRow.cons (.name hname) .nil (by simp [Token.Kind.runsInto]) hmark
  have hrow := WritesRow.cons (@Writes.keyword .var) hspace (by simp) hword
  have hwriting : IsWriting "\uFEFF/*\"*/var x='a\\'b'//\n"
      [.keyword .var, .ident "x", .punctuation .eq, .string "a'b"] :=
    ⟨['\uFEFF'], _, _, by decide, .inr rfl, hcomment, hrow⟩
  exact ⟨hwriting, writings_agree hwriting⟩

end DeclLang
