import DeclLang.Proofs.Grammar.Agreement
import DeclLang.Proofs.Grammar.Reader
import DeclLang.Proofs.Printer.Canonical

/-!
# Integers keep their value

The literal of a declaration has the value that its digits are written as, whatever comes before the
declaration and behind it, or else it is reported with all its digits.  Nothing in between can
happen: what an integer is written as is said in `Decimal.Writes` without a bound, and the bound
decides between the two alone.

For tokens this is `Reader.result_declaration`, since a reader carries complete items along
unchanged (`Reader.readAll_behind`).  For source texts the tokens of a one-line declaration are laid
out around any run of digits (`layout_variable`).  `integers_exact` has both, and that printing
undoes reading.
-/

namespace DeclLang

/-! ## Declarations without their literal -/

/-- A declaration up to its literal, with the spans of its tokens. -/
structure Declaration.Head where
  /-- What is declared. -/
  kind : Declaration.Kind
  /-- The name that is bound. -/
  name : String
  /-- The span of the word that the declaration begins with. -/
  start : Span
  /-- The span of the name. -/
  nameSpan : Span
  /-- The span of the mark. -/
  markSpan : Span

namespace Declaration.Head

/-- The tokens up to the literal. -/
def tokens (head : Head) : List Token :=
  [⟨.keyword head.kind.keyword, head.start⟩, ⟨.ident head.name, head.nameSpan⟩,
    ⟨.punctuation .eq, head.markSpan⟩]

/-- The declaration that a literal makes of the head. -/
def bind (head : Head) (value : Literal) (span : Span) : Spanned Declaration :=
  ⟨⟨head.kind, head.name, value⟩, head.start.merge span⟩

theorem kind_ne_eof (head : Head) : ∀ t ∈ head.tokens, t.kind ≠ .eof := by simp [tokens]

end Declaration.Head

namespace Reader

variable {head : Declaration.Head} {r s : Reader} {declared : Bool} {items : List Item}

/-- Behind the head of a declaration, whatever came before, its literal is expected. -/
theorem readAll_head (head : Declaration.Head) (declared : Bool) (items : List Item) :
    readAll ⟨.atItem declared, items⟩ head.tokens =
      .ok ⟨.atValue head.kind head.start head.name, items⟩ := by
  rw [Declaration.Head.tokens, readAll_cons_of_ok (read_of_goesOn .declaration),
    readAll_cons_of_ok (read_of_goesOn .name), readAll_cons_of_ok (read_of_goesOn .mark),
    readAll_nil]

/-- A declaration begins between items only. -/
theorem exists_of_readAll_head (h : r.readAll head.tokens = .ok s) :
    ∃ declared, r = ⟨.atItem declared, r.items⟩ := by
  obtain ⟨stage, items⟩ := r
  obtain ⟨next, hread, -⟩ := readAll_cons_eq_ok_iff.1 h
  generalize hword : (⟨.keyword head.kind.keyword, head.start⟩ : Token) = t at hread
  rcases read_cases hread with ⟨next, hgo, -⟩ | ⟨item, hfinish, -⟩
  · dsimp only at hgo
    cases hgo with
    | «import» => exact ⟨false, rfl⟩
    | @declaration declared => exact ⟨declared, rfl⟩
    | name => cases hword
    | mark => cases hword
  · cases hword
    exact nomatch hfinish.keyword?_eq_none

/-- The literal of a declaration finishes it. -/
theorem exists_of_read_literal {kind : Declaration.Kind} {start : Span} {name : String}
    {literal : Token} (h : read ⟨.atValue kind start name, items⟩ literal = .ok s) :
    ∃ value, s = ⟨.atItem true,
      items ++ [.declaration ⟨⟨kind, name, value⟩, start.merge literal.span⟩]⟩ := by
  rcases read_cases h with ⟨next, hgo, -⟩ | ⟨item, hfinish, rfl⟩
  · cases hgo
  · dsimp only at hfinish
    cases hfinish with
    | string => exact ⟨_, rfl⟩
    | integer => exact ⟨_, rfl⟩

/-- An integer as the literal of a declaration has the value that is read from its digits, or it is
reported. -/
theorem result_declaration (eof : Token) (head : Declaration.Head) (declared : Bool)
    (items : List Item) (digits : String) (span : Span) (ts : List Token) :
    result eof ⟨.atItem declared, items⟩ (head.tokens ++ ⟨.int digits, span⟩ :: ts) =
      match Decimal.int64? digits with
      | some n =>
        result eof ⟨.atItem true, items ++ [.declaration (head.bind (.integer n) span)]⟩ ts
      | none => .error (.grammar (.integerOverflow digits span)) := by
  rw [result_append_of_ok (readAll_head head declared items)]
  cases hdigits : Decimal.int64? digits with
  | some n => exact result_cons_of_ok (read_of_finishes (.integer hdigits))
  | none => exact result_cons_of_error (read_of_overflow (.overflow hdigits))

/-- What is read behind a declaration does not depend on the declaration. -/
theorem exists_of_readAll_declaration {literal : Token} {ts : List Token}
    (h : readAll ⟨.atItem declared, items⟩ (head.tokens ++ literal :: ts) = .ok s) :
    ∃ more : Reader,
      (∃ value, s = more.behind (items ++ [.declaration (head.bind value literal.span)])) ∧
      ∀ d : Spanned Declaration, readAll ⟨.atItem true, items ++ [.declaration d]⟩ ts =
        .ok (more.behind (items ++ [.declaration d])) := by
  rw [readAll_append_of_ok (readAll_head head declared items)] at h
  obtain ⟨next, hread, hlater⟩ := readAll_cons_eq_ok_iff.1 h
  obtain ⟨value, rfl⟩ := exists_of_read_literal hread
  have hbehind : ∀ d : Spanned Declaration,
      readAll ⟨.atItem true, items ++ [.declaration d]⟩ ts =
        (readAll ⟨.atItem true, []⟩ ts).map (behind (items ++ [.declaration d])) := by
    intro d
    rw [← readAll_behind, behind, List.append_nil]
  rw [hbehind] at hlater
  cases hmore : readAll ⟨.atItem true, []⟩ ts with
  | error g =>
    rw [hmore] at hlater
    cases hlater
  | ok more =>
    rw [hmore] at hlater
    cases hlater
    refine ⟨more, ⟨value, rfl⟩, fun d => ?_⟩
    rw [hbehind, hmore]
    rfl

end Reader

/-! ## Rows of tokens -/

theorem SourceFile.ofItems_declaration (items more : List Item) (d : Spanned Declaration) :
    ofItems (items ++ [.declaration d] ++ more) = ⟨(items ++ more).filterMap Item.import?,
      items.filterMap Item.declaration? ++ d :: more.filterMap Item.declaration?⟩ := by
  simp [ofItems, List.filterMap_cons, Item.import?, Item.declaration?]

section Row

variable {before after : List Token} {head : Declaration.Head} {literal : Token} {file : SourceFile}

/-- A declaration of a row that is accepted, with any integer in the place of its literal: the
integer decides what the row comes to, and where it has a value, nothing else is changed. -/
theorem parseTokens_integer (hbefore : ∀ t ∈ before, t.kind ≠ .eof)
    (h : parseTokens (before ++ (head.tokens ++ literal :: after)) = .ok file) :
    ∃ imports earlier later,
      (∃ value, file = ⟨imports, earlier ++ head.bind value literal.span :: later⟩) ∧
      ∀ (digits : String) (span : Span),
        parseTokens (before ++ (head.tokens ++ ⟨.int digits, span⟩ :: after)) =
          match Decimal.int64? digits with
          | some n => .ok ⟨imports, earlier ++ head.bind (.integer n) span :: later⟩
          | none => .error (.grammar (.integerOverflow digits span)) := by
  rw [parseTokens_eq_reader, beforeEof_append hbefore, beforeEof_append head.kind_ne_eof] at h
  obtain ⟨last, hall, hend, rfl⟩ := Reader.result_eq_ok_iff.1 h
  obtain ⟨r, hfirst, hrest⟩ := Reader.readAll_append_eq_ok_iff.1 hall
  obtain ⟨s, hhead, hliteral⟩ := Reader.readAll_append_eq_ok_iff.1 hrest
  obtain ⟨declared, hr⟩ := Reader.exists_of_readAll_head hhead
  have hkind : literal.kind ≠ .eof := by
    intro heof
    have hnil : beforeEof (literal :: after) = [] := by simp [beforeEof, heof]
    rw [hr, Reader.readAll_head, Except.ok.injEq] at hhead
    rw [hnil, ← hhead] at hliteral
    cases hliteral
    simp [Stage.expected] at hend
  have hcons : beforeEof (literal :: after) = literal :: beforeEof after := by
    simp [beforeEof, hkind]
  rw [hcons, hr] at hrest
  obtain ⟨more, ⟨value, rfl⟩, hmore⟩ := Reader.exists_of_readAll_declaration hrest
  refine ⟨_, _, _, ⟨value, SourceFile.ofItems_declaration r.items more.items _⟩, ?_⟩
  intro digits span
  have hcons : beforeEof (⟨.int digits, span⟩ :: after) =
      ⟨.int digits, span⟩ :: beforeEof after := by
    simp [beforeEof]
  rw [parseTokens_eq_reader, beforeEof_append hbefore, beforeEof_append head.kind_ne_eof, hcons,
    Reader.result_append_of_ok hfirst, hr, Reader.result_declaration]
  cases Decimal.int64? digits with
  | none => rfl
  | some n =>
    have hend' : .eof ∈ more.stage.expected := hend
    exact Reader.result_eq_ok_iff.2 ⟨_, hmore _, hend',
      SourceFile.ofItems_declaration r.items more.items _⟩

end Row

/-! ## Source texts -/

/-- The head of the declaration `var n = `. -/
def variableHead : Declaration.Head := ⟨.var, "n", ⟨0, 3, 1, 1⟩, ⟨4, 5, 1, 5⟩, ⟨6, 7, 1, 7⟩⟩

theorem isName_n : IsName "n" := by
  refine ⟨⟨'n', [], rfl, by decide, nofun⟩, ?_⟩
  intro k
  cases k <;> decide

theorem toList_variable (cs : List Char) : "var n = ".toList ++ cs =
    Keyword.var.spelling.toList ++
      ' ' :: ("n".toList ++ ' ' :: (Punctuation.eq.spelling.toList ++ ' ' :: cs)) := by
  simp [Keyword.spelling, Punctuation.spelling]

section Variable

variable {digits source : String} {rest : List Char}

theorem after_digits (hdigits : IsNumber digits.toList) : Position.after ⟨8, 1, 9⟩ digits.toList =
    ⟨8 + digits.length, 1, 9 + digits.length⟩ := by
  obtain ⟨hfeed, hwidth⟩ := plain_of_isNamePart hdigits.isNamePart_of_mem
  rw [Position.after_of_notMem hfeed, hwidth, String.length_toList]

theorem layout_variable {lexemes : List Lexeme} (hdigits : IsNumber digits.toList)
    (hrest : EndsRun Char.isDigit rest)
    (hmore : Layout ⟨8 + digits.length, 1, 9 + digits.length⟩ rest lexemes) :
    Layout .start ("var n = ".toList ++ (digits.toList ++ rest))
      ((variableHead.tokens ++ [Token.mk (.int digits) ⟨8, 8 + digits.length, 1, 9⟩]).map .token ++
        lexemes) := by
  rw [← after_digits hdigits] at hmore
  have hspan : Span.mk 8 (8 + digits.length) 1 9 =
      .between ⟨8, 1, 9⟩ (Position.after ⟨8, 1, 9⟩ digits.toList) := by
    rw [after_digits hdigits]
    rfl
  have hspace : ∀ {cs : List Char}, Spells .trivia [' '] cs := .blank (by simp)
  have hvalue := @Layout.trivia ⟨7, 1, 8⟩ _ _ _ hspace
    (@Layout.lexeme ⟨8, 1, 9⟩ _ _ (.token ⟨.int digits, _⟩) _ (.number hdigits hrest) hspan hmore)
  have hmark := @Layout.trivia ⟨5, 1, 6⟩ _ _ _ hspace
    (@Layout.lexeme ⟨6, 1, 7⟩ _ _ (.token ⟨.punctuation .eq, ⟨6, 7, 1, 7⟩⟩) _ .mark rfl hvalue)
  have hname := @Layout.trivia ⟨3, 1, 4⟩ _ _ _ hspace
    (@Layout.lexeme ⟨4, 1, 5⟩ _ _ (.token ⟨.ident "n", ⟨4, 5, 1, 5⟩⟩) _
      (.name isName_n (Canonical.endsRun_space _)) rfl hmark)
  rw [toList_variable]
  exact @Layout.lexeme .start _ _ (.token ⟨.keyword .var, ⟨0, 3, 1, 1⟩⟩) _
    (.keyword (Canonical.endsRun_space _)) rfl hname

/-- The declaration `var n = ` with a run of digits for its literal, and nothing but trivia behind
it. -/
theorem parse_variable {eof : Token}
    (hsource : source.toList = "var n = ".toList ++ (digits.toList ++ rest))
    (hdigits : IsNumber digits.toList) (hrest : EndsRun Char.isDigit rest)
    (heof : eof.kind = .eof)
    (hmore : Layout ⟨8 + digits.length, 1, 9 + digits.length⟩ rest [.token eof]) :
    parse source = match Decimal.int64? digits with
      | some n => .ok ⟨[], [⟨⟨.var, "n", .integer n⟩, ⟨0, 8 + digits.length, 1, 1⟩⟩]⟩
      | none => .error (.grammar (.integerOverflow digits ⟨8, 8 + digits.length, 1, 9⟩)) := by
  have hlayout := layout_variable hdigits hrest hmore
  rw [← hsource] at hlayout
  have hhead : source.toList.head? ≠ some '\uFEFF' := by
    rw [hsource]
    exact nofun
  have hlexemes : Lexeme.ofString source =
      (variableHead.tokens ++ [Token.mk (.int digits) ⟨8, 8 + digits.length, 1, 9⟩, eof]).map
        .token := by
    rw [eq_comm, ← isReading_iff]
    exact .inl ⟨hhead, hlayout⟩
  have hbefore : beforeEof [Token.mk (.int digits) ⟨8, 8 + digits.length, 1, 9⟩, eof] =
      [Token.mk (.int digits) ⟨8, 8 + digits.length, 1, 9⟩] := by
    simp [beforeEof, heof]
  have hmerge : variableHead.start.merge ⟨8, 8 + digits.length, 1, 9⟩ =
      ⟨0, 8 + digits.length, 1, 1⟩ := by
    have hmax : max 3 (8 + digits.length) = 8 + digits.length := by omega
    simp [variableHead, Span.merge, hmax]
  rw [parse_eq_parseTokens hlexemes, parseTokens_eq_reader,
    beforeEof_append variableHead.kind_ne_eof, hbefore, Reader.start, Reader.result_declaration]
  cases Decimal.int64? digits with
  | none => rfl
  | some n =>
    have haccept : ∀ eof items, Reader.result eof ⟨.atItem true, items⟩ [] = .ok (.ofItems items) :=
      fun _ _ => Reader.result_nil_of_mem (Stage.eof_mem_expected_atItem true)
    dsimp only
    rw [haccept, Declaration.Head.bind, hmerge]
    rfl

theorem toList_canonical_variable (style : Style) (n : Int64) (span : Span) :
    (SourceFile.canonical style ⟨[], [⟨⟨.var, "n", .integer n⟩, span⟩]⟩).toList =
      "var n = ".toList ++ ((toString n.toInt).toList ++ ['\n']) := by
  rw [toList_variable]
  simp [SourceFile.canonical, SourceFile.importPaths, SourceFile.declarationNodes, Canonical.lines,
    Canonical.separator, Canonical.declarationLine, Canonical.literal, Declaration.Kind.keyword,
    Lines.join]

end Variable

section Digits

variable {digits : String} (hdigits : IsNumber digits.toList)
include hdigits

theorem parse_digits : parse ("var n = " ++ digits) =
    match Decimal.int64? digits with
    | some n => .ok ⟨[], [⟨⟨.var, "n", .integer n⟩, ⟨0, 8 + digits.length, 1, 1⟩⟩]⟩
    | none => .error (.grammar (.integerOverflow digits ⟨8, 8 + digits.length, 1, 9⟩)) := by
  have hsource : ("var n = " ++ digits).toList = "var n = ".toList ++ (digits.toList ++ []) := by
    simp
  exact parse_variable hsource hdigits nofun rfl .done

/-- Digits that 64 bits have room for are read as their value, and so is what is printed for it. -/
theorem exists_parse_digits (hle : Nat.ofDigitChars 10 digits.toList 0 ≤ 2 ^ 63 - 1) :
    ∃ n : Int64, n.toInt = Nat.ofDigitChars 10 digits.toList 0 ∧
      parse ("var n = " ++ digits) =
        .ok ⟨[], [⟨⟨.var, "n", .integer n⟩, ⟨0, 8 + digits.length, 1, 1⟩⟩]⟩ ∧
      ∀ style span, ∃ again,
        parse (SourceFile.canonical style ⟨[], [⟨⟨.var, "n", .integer n⟩, span⟩]⟩) = .ok again ∧
        again.imports = [] ∧ again.declarationNodes = [⟨.var, "n", .integer n⟩] := by
  obtain ⟨n, hn⟩ : ∃ n : Int64, n.toInt = Nat.ofDigitChars 10 digits.toList 0 := by
    rw [Decimal.exists_toInt_eq_iff]
    omega
  have hparse := parse_digits hdigits
  have hwrites := Decimal.Writes.plain hdigits
  rw [← hn] at hwrites
  rw [Decimal.int64?_eq_some_iff_writes.2 hwrites] at hparse
  refine ⟨n, hn, hparse, fun style span => ?_⟩
  have hnumber : IsNumber (toString n.toInt).toList := by
    rw [Decimal.toList_toString (by omega)]
    exact Decimal.isNumber_toDigits _
  have hagain := parse_variable (toList_canonical_variable style n span) hnumber
    (Canonical.endsRun_lineFeed []) rfl (.trivia (.blank (by simp)) .done)
  rw [Decimal.int64?_eq_some_iff_writes.2 (Decimal.writes_toString n.toInt)] at hagain
  exact ⟨_, hagain, rfl, rfl⟩

theorem parse_digits_of_lt (hlt : 2 ^ 63 - 1 < Nat.ofDigitChars 10 digits.toList 0) :
    parse ("var n = " ++ digits) =
      .error (.grammar (.integerOverflow digits ⟨8, 8 + digits.length, 1, 9⟩)) := by
  have hnone : Decimal.int64? digits = none := by
    rw [Decimal.int64?_eq_none_iff]
    rintro ⟨v, hv, -, hmax⟩
    rw [hv.unique (.plain hdigits)] at hmax
    omega
  rw [parse_digits hdigits, hnone]

end Digits

/-! ## The value of an integer -/

/-- Integers are never cut off and never wrap around.  Where a row of tokens with some literal in a
declaration is accepted, any integer can be put in its place: the declaration gets the value that
the integer is written as, if 64 bits have room for it, and nothing else in the tree is changed; in
every other case all of the text of the integer is reported, with its span.  So it is for digits in
source text, too, of any number, and what is printed for a value is written as that value: read
again, it makes the same declaration. -/
theorem integers_exact :
    (∀ (before after : List Token) (head : Declaration.Head) (literal : Token) (file : SourceFile),
      (∀ t ∈ before, t.kind ≠ .eof) →
      parseTokens (before ++ (head.tokens ++ literal :: after)) = .ok file →
      ∃ imports earlier later,
        (∃ value, file = ⟨imports, earlier ++ head.bind value literal.span :: later⟩) ∧
        ∀ (digits : String) (span : Span),
          (∀ v : Int,
            (∃ n : Int64, n.toInt = v ∧
              parseTokens (before ++ (head.tokens ++ ⟨.int digits, span⟩ :: after)) =
                .ok ⟨imports, earlier ++ head.bind (.integer n) span :: later⟩) ↔
            Decimal.Writes digits.toList v ∧ -2 ^ 63 ≤ v ∧ v ≤ 2 ^ 63 - 1) ∧
          ((¬ ∃ v, Decimal.Writes digits.toList v ∧ -2 ^ 63 ≤ v ∧ v ≤ 2 ^ 63 - 1) →
            parseTokens (before ++ (head.tokens ++ ⟨.int digits, span⟩ :: after)) =
              .error (.grammar (.integerOverflow digits span)))) ∧
    (∀ digits : String, IsNumber digits.toList →
      (Nat.ofDigitChars 10 digits.toList 0 ≤ 2 ^ 63 - 1 →
        ∃ n : Int64, n.toInt = Nat.ofDigitChars 10 digits.toList 0 ∧
          parse ("var n = " ++ digits) =
            .ok ⟨[], [⟨⟨.var, "n", .integer n⟩, ⟨0, 8 + digits.length, 1, 1⟩⟩]⟩ ∧
          ∀ style span, ∃ again,
            parse (SourceFile.canonical style ⟨[], [⟨⟨.var, "n", .integer n⟩, span⟩]⟩) =
              .ok again ∧
            again.imports = [] ∧ again.declarationNodes = [⟨.var, "n", .integer n⟩]) ∧
      (2 ^ 63 - 1 < Nat.ofDigitChars 10 digits.toList 0 →
        parse ("var n = " ++ digits) =
          .error (.grammar (.integerOverflow digits ⟨8, 8 + digits.length, 1, 9⟩)))) ∧
    ∀ q (n : Int64), Decimal.Writes (Canonical.literal q (.integer n)).toList n.toInt := by
  refine ⟨?_, ?_, fun q n => Decimal.writes_toString n.toInt⟩
  · intro before after head literal file hbefore h
    obtain ⟨imports, earlier, later, hfile, hall⟩ := parseTokens_integer hbefore h
    refine ⟨imports, earlier, later, hfile, fun digits span => ?_⟩
    rw [hall digits span]
    constructor
    · intro v
      constructor
      · rintro ⟨n, rfl, hok⟩
        cases hdigits : Decimal.int64? digits with
        | none =>
          rw [hdigits] at hok
          cases hok
        | some m =>
          rw [hdigits] at hok
          obtain rfl : m = n := by simpa [Declaration.Head.bind] using hok
          exact ⟨Decimal.int64?_eq_some_iff_writes.1 hdigits,
            Decimal.exists_toInt_eq_iff.1 ⟨m, rfl⟩⟩
      · rintro ⟨hv, hrange⟩
        obtain ⟨n, rfl⟩ := Decimal.exists_toInt_eq_iff.2 hrange
        exact ⟨n, rfl, by rw [Decimal.int64?_eq_some_iff_writes.2 hv]⟩
    · intro hnone
      rw [Decimal.int64?_eq_none_iff.2 hnone]
  · intro digits hdigits
    exact ⟨exists_parse_digits hdigits, parse_digits_of_lt hdigits⟩

/-- The least integer, written with leading zeros, in the place of a string between two other items,
and the digits of one more than the greatest. -/
theorem integers_exact_least :
    let before : List Token := [⟨.keyword .import, ⟨0, 6, 1, 1⟩⟩, ⟨.string "é", ⟨7, 11, 1, 8⟩⟩]
    let head : Declaration.Head := ⟨.func, "f", ⟨12, 16, 2, 1⟩, ⟨17, 18, 2, 6⟩, ⟨18, 19, 2, 7⟩⟩
    let after := variableHead.tokens ++ [⟨.int "1", ⟨8, 9, 1, 9⟩⟩]
    let file : SourceFile := ⟨[⟨"é", ⟨7, 11, 1, 8⟩⟩],
      [head.bind (.string "") ⟨19, 21, 2, 8⟩, variableHead.bind (.integer 1) ⟨8, 9, 1, 9⟩]⟩
    (∀ t ∈ before, t.kind ≠ .eof) ∧
      parseTokens (before ++ (head.tokens ++ ⟨.string "", ⟨19, 21, 2, 8⟩⟩ :: after)) = .ok file ∧
      (∃ imports earlier later, (∃ value, file = ⟨imports, earlier ++
          head.bind value ⟨19, 21, 2, 8⟩ :: later⟩) ∧
        ∃ n : Int64, n.toInt = -2 ^ 63 ∧
          parseTokens (before ++ (head.tokens ++
            ⟨.int "-009223372036854775808", ⟨19, 41, 2, 8⟩⟩ :: after)) =
              .ok ⟨imports, earlier ++ head.bind (.integer n) ⟨19, 41, 2, 8⟩ :: later⟩) ∧
      IsNumber "9223372036854775808".toList ∧
      2 ^ 63 - 1 < Nat.ofDigitChars 10 "9223372036854775808".toList 0 ∧
      parse ("var n = " ++ "9223372036854775808") =
        .error (.grammar (.integerOverflow "9223372036854775808" ⟨8, 27, 1, 9⟩)) := by
  intro before head after file
  have hbefore : ∀ t ∈ before, t.kind ≠ .eof := by decide
  have haccepted : parseTokens (before ++ (head.tokens ++ ⟨.string "", ⟨19, 21, 2, 8⟩⟩ :: after)) =
      .ok file := by decide +kernel
  obtain ⟨imports, earlier, later, hfile, hall⟩ :=
    integers_exact.1 before after head _ file hbefore haccepted
  have hwrites : Decimal.Writes "-009223372036854775808".toList (-2 ^ 63) :=
    Decimal.integer?_eq_some_iff.1 (by decide +kernel)
  have hdigits : IsNumber "9223372036854775808".toList :=
    (Decimal.natural?_eq_some_iff.1 (by decide +kernel :
      Decimal.natural? "9223372036854775808".toList = some 9223372036854775808)).1
  have hlarge : 2 ^ 63 - 1 < Nat.ofDigitChars 10 "9223372036854775808".toList 0 := by
    decide +kernel
  exact ⟨hbefore, haccepted, ⟨imports, earlier, later, hfile,
    ((hall "-009223372036854775808" ⟨19, 41, 2, 8⟩).1 (-2 ^ 63)).2 ⟨hwrites, by decide, by decide⟩⟩,
    hdigits, hlarge, (integers_exact.2.1 _ hdigits).2 hlarge⟩

end DeclLang
