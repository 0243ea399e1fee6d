import DeclLang.Lexeme.Listing
import DeclLang.Proofs.Decimal
import DeclLang.Proofs.Lexical.Stream
import DeclLang.Proofs.Text.Lines
import DeclLang.Proofs.Text.Visible
import Mathlib.Data.List.Forall2

/-!
# A listing tells the tokens of a text

What a listing shows of a token is its kind, with what the token stands for, and its line and
column (`Token.shown`).  No two kinds are displayed alike (`Token.Kind.display_injective`): the first
two characters tell the class, and what a token stands for is in quotes of some sort.  A line of a
listing is told by its parts in turn: digits up to the colon, digits up to the first space, spaces,
and the kind, which does not begin with one (`Token.listingLine_eq_iff`).  The lexical rules keep
line feeds out of all of them, so a listing can be cut into its lines.

`Listing.add` is what a lexeme adds to a listing in the making, and `Listing.foldl_add` what a row of
them comes to.  `listing_tells_tokens` says all this of the lexemes of a source text.
-/

namespace DeclLang

/-! ## How kinds are displayed -/

/-- The class whose display begins with two characters. -/
def TokenClass.ofFront? : List Char → Option TokenClass
  | ['`', 'i'] => some (.keyword .import)
  | ['`', 'f'] => some (.keyword .func)
  | ['`', 'v'] => some (.keyword .var)
  | ['`', '='] => some (.punctuation .eq)
  | ['i', 'd'] => some .ident
  | ['i', 'n'] => some .int
  | ['s', 't'] => some .string
  | ['e', 'n'] => some .eof
  | _ => none

theorem TokenClass.ofFront?_display (c : TokenClass) :
    ofFront? (c.display.toList.take 2) = some c := by
  cases c with
  | keyword word => cases word <;> decide
  | punctuation mark => cases mark; decide
  | _ => decide

namespace Token.Kind

theorem display_ident (name : String) : (ident name).display = "identifier `" ++ (name ++ "`") :=
  String.append_assoc

theorem display_int (digits : String) :
    (int digits).display = "integer literal `" ++ (digits ++ "`") :=
  String.append_assoc

theorem display_string (value : String) :
    (string value).display = "string literal " ++ Visible.string value := rfl

/-- A kind is displayed with the name of its class in front. -/
theorem take_display (kind : Kind) :
    kind.display.toList.take 2 = kind.tokenClass.display.toList.take 2 := by
  have hfront {front : String} (rest : String) (h : 2 ≤ front.toList.length) :
      (front ++ rest).toList.take 2 = front.toList.take 2 := by
    rw [String.toList_append, List.take_append_of_le_length h]
  cases kind with
  | ident name =>
    rw [display_ident, hfront _ (by decide)]
    show _ = TokenClass.ident.display.toList.take 2
    decide
  | int digits =>
    rw [display_int, hfront _ (by decide)]
    show _ = TokenClass.int.display.toList.take 2
    decide
  | string value =>
    rw [display_string, hfront _ (by decide)]
    show _ = TokenClass.string.display.toList.take 2
    decide
  | keyword word => rfl
  | punctuation mark => rfl
  | eof => rfl

/-- Kinds that are displayed alike are the same, and stand for the same. -/
theorem display_injective : Function.Injective display := by
  intro kind other h
  have hclass : kind.tokenClass = other.tokenClass := by
    apply Option.some.inj
    rw [← TokenClass.ofFront?_display, ← take_display, h, take_display, TokenClass.ofFront?_display]
  cases kind with
  | keyword word =>
    cases other with
    | keyword other => rw [TokenClass.keyword.inj hclass]
    | _ => nomatch hclass
  | punctuation mark =>
    cases other with
    | punctuation other => rw [TokenClass.punctuation.inj hclass]
    | _ => nomatch hclass
  | ident name =>
    cases other with
    | ident other =>
      rw [display_ident, display_ident, String.append_right_inj, String.append_left_inj] at h
      rw [h]
    | _ => nomatch hclass
  | int digits =>
    cases other with
    | int other =>
      rw [display_int, display_int, String.append_right_inj, String.append_left_inj] at h
      rw [h]
    | _ => nomatch hclass
  | string value =>
    cases other with
    | string other =>
      rw [display_string, display_string, String.append_right_inj] at h
      rw [Visible.string_injective h]
    | _ => nomatch hclass
  | eof =>
    cases other with
    | eof => rfl
    | _ => nomatch hclass

theorem endsRun_display (kind : Kind) : EndsRun (· == ' ') kind.display.toList := by
  have hhead := congrArg List.head? (take_display kind)
  rw [List.head?_take, List.head?_take, if_neg (by decide), if_neg (by decide)] at hhead
  have hclass : kind.tokenClass.display.toList.head? ≠ some ' ' := by
    cases kind.tokenClass with
    | keyword word => cases word <;> decide
    | punctuation mark => cases mark; decide
    | _ => decide
  intro c hc
  refine beq_eq_false_iff_ne.mpr fun hspace => hclass ?_
  rw [← hhead, Option.mem_def.mp hc, hspace]

/-- The lexical rules let no line feed into what is displayed of a token. -/
theorem lineFeed_notMem_display {kind : Kind} {text rest : List Char}
    (h : Spells (.token kind) text rest) : '\n' ∉ kind.display.toList := by
  have hquoted {front : String} {inner : List Char} {p : Char → Bool}
      (hfront : '\n' ∉ front.toList) (hinner : ∀ c ∈ inner, p c = true) (hp : p '\n' = false) :
      '\n' ∉ front.toList ++ (inner ++ ['`']) := by
    simp only [List.mem_append, not_or]
    refine ⟨hfront, fun hmem => ?_, by decide⟩
    rw [hinner _ hmem] at hp
    cases hp
  cases h with
  | @keyword k => cases k <;> decide
  | @mark m => cases m; decide
  | @name name _ hname =>
    obtain ⟨⟨c, cs, hcs, hc, hparts⟩, -⟩ := hname
    have hname : ∀ d ∈ name.toList, isNamePart d = true := by
      rw [hcs, List.forall_mem_cons]
      exact ⟨isNamePart_of_isNameStart hc, hparts⟩
    rw [display_ident, String.toList_append, String.toList_append]
    exact hquoted (by decide) hname (by decide)
  | @number digits _ hdigits =>
    obtain ⟨c, cs, hcs, hall⟩ := hdigits
    rw [display_int, String.toList_append, String.toList_append, hcs]
    exact hquoted (by decide) hall (by decide)
  | @string q value =>
    rw [display_string, String.toList_append, List.mem_append, not_or]
    exact ⟨by decide, Visible.lineFeed_notMem_string value⟩

end Token.Kind

/-! ## Lines of a listing -/

namespace Token

/-- What a listing shows of a token: its kind, with what it stands for, and its line and column. -/
def shown (t : Token) : Token.Kind × Nat × Nat := (t.kind, t.span.line, t.span.column)

theorem toList_listingLine (t : Token) :
    t.listingLine.toList = Nat.toDigits 10 t.span.line ++
      ':' :: (Nat.toDigits 10 t.span.column ++
        ' ' :: (List.replicate (8 - t.span.display.length) ' ' ++ t.kind.display.toList)) := by
  have hspaces (n : Nat) (rest : List Char) :
      List.replicate n ' ' ++ ' ' :: rest = ' ' :: (List.replicate n ' ' ++ rest) := by
    rw [← List.cons_append, ← List.replicate_succ, List.replicate_succ', List.append_assoc,
      List.singleton_append]
  have hplace : t.span.display.toList =
      Nat.toDigits 10 t.span.line ++ ':' :: Nat.toDigits 10 t.span.column := by
    simp [Span.display]
  rw [listingLine, Align.left, String.toList_append, String.toList_append, String.toList_append,
    hplace, Align.spaces, String.toList_ofList]
  simp [hspaces]

/-- Lines of a listing are the same exactly if they show the same. -/
theorem listingLine_eq_iff {t u : Token} : t.listingLine = u.listingLine ↔ t.shown = u.shown := by
  constructor
  · intro h
    have hdigits (n : Nat) : ∀ c ∈ Nat.toDigits 10 n, c.isDigit = true := fun c hc =>
      Nat.isDigit_of_mem_toDigits (by decide) (by decide) hc
    have hspaces (n : Nat) : ∀ c ∈ List.replicate n ' ', (c == ' ') = true :=
      List.forall_mem_replicate.2 (.inr rfl)
    have hcolon (rest : List Char) : EndsRun Char.isDigit (':' :: rest) :=
      endsRun_cons.2 (by decide)
    have hspace (rest : List Char) : EndsRun Char.isDigit (' ' :: rest) :=
      endsRun_cons.2 (by decide)
    rw [← String.toList_inj, toList_listingLine, toList_listingLine] at h
    obtain ⟨hline, h⟩ :=
      append_inj_of_endsRun (hdigits _) (hcolon _) (hdigits _) (hcolon _) h
    obtain ⟨hcolumn, h⟩ := append_inj_of_endsRun (hdigits _) (hspace _) (hdigits _) (hspace _)
      (List.cons.inj h).2
    obtain ⟨-, hkind⟩ := append_inj_of_endsRun (hspaces _) t.kind.endsRun_display (hspaces _)
      u.kind.endsRun_display (List.cons.inj h).2
    rw [shown, shown, Kind.display_injective (String.toList_injective hkind),
      ← Decimal.value_toDigits t.span.line, hline, Decimal.value_toDigits,
      ← Decimal.value_toDigits t.span.column, hcolumn, Decimal.value_toDigits]
  · intro h
    obtain ⟨hkind, hplace⟩ := Prod.mk.inj h
    obtain ⟨hline, hcolumn⟩ := Prod.mk.inj hplace
    rw [listingLine, listingLine, Span.display, Span.display, hkind, hline, hcolumn]

theorem lineFeed_notMem_listingLine {t : Token} (h : '\n' ∉ t.kind.display.toList) :
    '\n' ∉ t.listingLine.toList := by
  have hdigits (n : Nat) : '\n' ∉ Nat.toDigits 10 n := fun hmem =>
    absurd (Nat.isDigit_of_mem_toDigits (by decide) (by decide) hmem) (by decide)
  rw [toList_listingLine]
  simp [hdigits, h]

end Token

/-! ## Making a listing -/

/-- A listing in the making: what has been written, and the errors that were come upon. -/
structure Listing where
  /-- The lines so far. -/
  text : String
  /-- The errors so far, in order. -/
  errors : List LexicalError
deriving DecidableEq

namespace Listing

/-- Adds a lexeme to a listing: a token is written on a line, and an error is put aside. -/
def add (listing : Listing) : Lexeme → Listing
  | .token t => { listing with text := listing.text ++ (t.listingLine ++ "\n") }
  | .error e => { listing with errors := listing.errors ++ [e] }

theorem append_join_cons (text line : String) (lines : List String) :
    text ++ (line ++ "\n") ++ Lines.join lines = text ++ Lines.join (line :: lines) := by
  rw [← String.toList_inj]
  simp [Lines.toList_join_cons]

/-- Lexemes that are added one after another add their tokens to the text and their errors to the
errors. -/
theorem foldl_add (listing : Listing) (lexemes : List Lexeme) :
    lexemes.foldl add listing =
      ⟨listing.text ++ Lines.join ((lexemes.filterMap Lexeme.token?).map Token.listingLine),
        listing.errors ++ lexemes.filterMap Lexeme.error?⟩ := by
  induction lexemes generalizing listing with
  | nil =>
    have hnone : listing.text ++ Lines.join [] = listing.text := by
      rw [← String.toList_inj, String.toList_append, Lines.toList_join_nil, List.append_nil]
    rw [List.foldl_nil, List.filterMap_nil, List.filterMap_nil, List.map_nil, hnone,
      List.append_nil]
  | cons lexeme lexemes ih =>
    rw [List.foldl_cons, ih]
    cases lexeme with
    | token t => exact congrArg₂ Listing.mk (append_join_cons _ _ _) rfl
    | error e => exact congrArg₂ Listing.mk rfl (List.append_cons _ _ _).symm

end Listing

/-! ## Listings of source texts -/

theorem lineFeed_notMem_of_mem_tokens {source : String} {t : Token} (h : t ∈ tokens source) :
    '\n' ∉ t.listingLine.toList := by
  apply Token.lineFeed_notMem_listingLine
  obtain ⟨lexeme, hlexeme, ht⟩ := List.mem_filterMap.1 h
  cases lexeme with
  | error e => cases ht
  | token u =>
    obtain rfl := Option.some.inj ht
    by_cases heof : u.kind = .eof
    · rw [heof]
      decide
    · have hrole : (Lexeme.token u).role ≠ .token .eof := by
        intro hrole
        exact heof (Piece.Role.token.inj hrole)
      obtain ⟨_, _, hspells⟩ := Lexeme.spells_of_mem_ofString hlexeme hrole
      exact Token.Kind.lineFeed_notMem_display hspells

theorem cutAtFeeds_tokenListing (source : String) :
    Lines.CutAtFeeds (tokenListing source) ((tokens source).map Token.listingLine) :=
  ⟨rfl, List.forall_mem_map.2 fun _ ht => lineFeed_notMem_of_mem_tokens ht⟩

/-- Listings are the same exactly if they show the same tokens in the same places. -/
theorem tokenListing_eq_iff {source other : String} :
    tokenListing source = tokenListing other ↔
      (tokens source).map Token.shown = (tokens other).map Token.shown := by
  have hlines : (tokens source).map Token.listingLine = (tokens other).map Token.listingLine ↔
      (tokens source).map Token.shown = (tokens other).map Token.shown := by
    rw [← List.forall₂_eq_eq_eq, ← List.forall₂_eq_eq_eq]
    simp only [List.forall₂_map_left_iff, List.forall₂_map_right_iff, Token.listingLine_eq_iff]
  rw [← hlines]
  constructor
  · intro h
    exact Lines.join_injective (cutAtFeeds_tokenListing source).lineFeed_notMem
      (cutAtFeeds_tokenListing other).lineFeed_notMem h
  · intro h
    rw [tokenListing, tokenListing, h]

/-- Only the last token of a source text is the end of input. -/
theorem exists_tokens_eq (source : String) :
    ∃ init eof, tokens source = init ++ [eof] ∧ eof.kind = .eof ∧ ∀ t ∈ init, t.kind ≠ .eof := by
  have hreading : IsReading source (Lexeme.ofString source) := isReading_iff.2 rfl
  obtain ⟨init, eof, hlexemes, heof, -, -, hinit⟩ := hreading.coversSource
  refine ⟨init.filterMap Lexeme.token?, eof, ?_, heof, ?_⟩
  · rw [tokens, hlexemes, List.filterMap_append]
    rfl
  · intro t ht hkind
    obtain ⟨lexeme, hlexeme, htoken⟩ := List.mem_filterMap.1 ht
    obtain ⟨_, _, _, -, -, -, -, hspells⟩ := hinit lexeme hlexeme
    cases lexeme with
    | error e => cases htoken
    | token u =>
      obtain rfl := Option.some.inj htoken
      exact hspells.role_ne_eof (congrArg Piece.Role.token hkind)

/-- A listing is complete and tells the tokens.  However a source text is read, lexeme after lexeme,
there is one row of lexemes to come upon.  Adding them to a listing writes a line for each token,
wherever the errors are, and puts aside the errors in order.  The listing can be cut into these
lines again, the last of which is the one of the end of input, and two source texts have the same
listing exactly if they have the same kinds of tokens, with what these stand for, on the same lines
and columns. -/
theorem listing_tells_tokens (source : String) :
    ∃ lexemes init eof, (∀ others, (Cursor.ofString source).Yields others ↔ others = lexemes) ∧
      lexemes.foldl Listing.add ⟨"", []⟩ = ⟨tokenListing source, lexicalErrors source⟩ ∧
      lexicalErrors source = lexemes.filterMap Lexeme.error? ∧
      tokens source = lexemes.filterMap Lexeme.token? ∧
      tokens source = init ++ [eof] ∧ eof.kind = .eof ∧ (∀ t ∈ init, t.kind ≠ .eof) ∧
      Lines.CutAtFeeds (tokenListing source)
        (init.map Token.listingLine ++ [eof.listingLine]) ∧
      ∀ other, tokenListing source = tokenListing other ↔
        (tokens source).map Token.shown = (tokens other).map Token.shown := by
  obtain ⟨init, eof, htokens, heof, hinit⟩ := exists_tokens_eq source
  have hyields := Cursor.yields_ofString source
  have hlisting : (Lexeme.ofString source).foldl Listing.add ⟨"", []⟩ =
      ⟨tokenListing source, lexicalErrors source⟩ := by
    rw [Listing.foldl_add, String.empty_append, List.nil_append]
    rfl
  have hcut := cutAtFeeds_tokenListing source
  rw [htokens, List.map_append, List.map_singleton] at hcut
  refine ⟨Lexeme.ofString source, init, eof, ?_, hlisting, rfl, rfl, htokens, heof, hinit,
    hcut, fun other => tokenListing_eq_iff⟩
  intro others
  constructor
  · exact hyields.unique
  · rintro rfl
    exact hyields

/-- The token behind an error is listed, and a line feed in a string ends no line of the listing. -/
example : tokenListing "x @ '\\n'" =
    "1:1      identifier `x`\n1:5      string literal \"\\n\"\n1:9      end of input\n" := by
  decide +kernel

end DeclLang
