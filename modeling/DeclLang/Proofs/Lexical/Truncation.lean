import DeclLang.Proofs.Lexical.Place

/-!
# Texts cut off behind a token

A source text that is cut off behind one of its tokens has the tokens up to there, and behind them
an end of input (`ofString_upTo`).  Two things are behind this.

* What is behind a piece matters to it only through the next character (`Spells.of_head`), and to
  a token not at all if it is the end of the text (`Spells.at_end`).  So nothing before the cut
  changes.
* A token is on one line, and what its characters have beyond one byte each can be found out from
  its kind alone (`Spells.surplus_eq`): a string that is decoded loses bytes, but only those of
  escapes, and each of them is a character of its own.  So the end of input that is worked out
  from the last token, `Token.endBehind`, is where the cut is.

The end of input that is made up, `Token.eofAfter`, has a machine word as its column, so that it is
at the cut unless the column there is too large for one (`Token.eofAfter_eq`).  In a text whose size
is a machine word no column is (`Token.eofAfter_of_prefix`).
-/

namespace DeclLang

/-! ## What is behind a piece -/

namespace Spells

variable {role : Piece.Role} {kind : Token.Kind} {text rest other : List Char}

/-- A piece is the same piece before any text that begins with the same character. -/
theorem of_head (h : Spells role text rest) (hhead : other.head? = rest.head?) :
    Spells role text other := by
  cases h with
  | blank h => exact .blank h
  | lineComment hbody hrest => exact .lineComment hbody (by rwa [AtLineEnd, hhead])
  | blockComment hbody => exact .blockComment hbody
  | keyword hrest => exact .keyword (by rwa [EndsRun, hhead])
  | name hname hrest => exact .name hname (by rwa [EndsRun, hhead])
  | number hdigits hrest => exact .number hdigits (by rwa [EndsRun, hhead])
  | mark => exact .mark
  | string hbody => exact .string hbody
  | openString hbody hrest => exact .openString hbody (by rwa [AtLineEnd, hhead])
  | openEscape hbody hrest => exact .openEscape hbody (by rwa [AtLineEnd, hhead])
  | openComment hbody =>
    obtain rfl : other = [] := List.head?_eq_none_iff.1 hhead
    exact .openComment hbody
  | stray h => exact .stray (by rwa [Begins, hhead])

theorem of_append (h : Spells role text (rest ++ other)) (hne : rest ≠ []) :
    Spells role text rest := by
  refine h.of_head ?_
  rw [List.head?_append_of_ne_nil _ hne]

/-- A token is the same token at the end of the text. -/
theorem at_end (h : Spells (.token kind) text rest) : Spells (.token kind) text [] := by
  cases h with
  | keyword => exact .keyword nofun
  | name hname => exact .name hname nofun
  | number hdigits => exact .number hdigits nofun
  | mark => exact .mark
  | string hbody => exact .string hbody

end Spells

/-! ## The width of a token -/

/-- The bytes that the characters of a token have beyond one each. -/
def Token.Kind.surplus : Token.Kind → Nat
  | .string value => value.utf8ByteSize - value.length
  | _ => 0

/-- The end of input right behind a token, with a column of any size. -/
def Token.endBehind (last : Token) : Token :=
  let span := last.span
  ⟨.eof, ⟨span.stop, span.stop, span.line, span.column + (span.length - last.kind.surplus)⟩⟩

/-- The end of input that is made up behind a token is right behind it, but for a column that is too
large for a machine word. -/
theorem Token.eofAfter_eq (last : Token) :
    last.eofAfter = ⟨.eof, { last.endBehind.span with
      column := last.endBehind.span.column % UInt64.size }⟩ := by
  obtain ⟨kind, span⟩ := last
  cases kind <;> rfl

example : (Token.eofAfter ⟨.keyword .import, ⟨0, 6, 1, UInt64.size - 1⟩⟩).span.column = 5 := rfl

/-- Names and numbers are written in ASCII. -/
theorem utf8Size_of_isNamePart {c : Char} (h : isNamePart c = true) : c.utf8Size = 1 := by
  have hle : c.toNat ≤ 127 := by
    have h9 : '9'.toNat = 57 := rfl
    simp only [isNamePart, Char.isAlphanum, Bool.or_eq_true, beq_iff_eq, isAlpha_iff,
      Char.isDigit_iff_toNat] at h
    rcases h with (halpha | hdigit) | rfl
    · omega
    · omega
    · decide
  rw [Char.utf8Size_eq_one_iff, UInt32.le_iff_toNat_le]
  exact hle

theorem byteWidth_of_narrow {cs : List Char} (h : ∀ c ∈ cs, c.utf8Size = 1) :
    byteWidth cs = cs.length := by
  induction cs with
  | nil => rfl
  | cons c cs ih =>
    obtain ⟨hc, hcs⟩ := List.forall_mem_cons.1 h
    rw [byteWidth_cons, hc, ih hcs, List.length_cons, Nat.add_comm]

theorem length_le_byteWidth (cs : List Char) : cs.length ≤ byteWidth cs := by
  induction cs with
  | nil => exact Nat.le_refl 0
  | cons c cs ih =>
    have hc := c.utf8Size_pos
    rw [byteWidth_cons, List.length_cons]
    omega

theorem Escape.utf8Size {q : QuoteStyle} {c d : Char} (h : Escape q c d) :
    c.utf8Size = 1 ∧ d.utf8Size = 1 := by
  cases h with
  | delimiter => cases q <;> decide
  | _ => decide

/-- Decoding a body loses as many bytes as characters: only escapes get shorter. -/
theorem Body.byteWidth_eq {q : QuoteStyle} {raw value : List Char} (h : Body q raw value) :
    byteWidth raw + value.length = byteWidth value + raw.length := by
  induction h with
  | nil => rfl
  | plain _ _ _ _ ih =>
    simp only [byteWidth_cons, List.length_cons]
    omega
  | escape hescape _ ih =>
    obtain ⟨hc, hd⟩ := hescape.utf8Size
    have hslash : '\\'.utf8Size = 1 := rfl
    simp only [byteWidth_cons, List.length_cons, hc, hd, hslash]
    omega
  | verbatim _ _ _ ih =>
    simp only [byteWidth_cons, List.length_cons]
    omega

theorem IsWord.isNamePart_of_mem {text : List Char} (h : IsWord text) :
    ∀ c ∈ text, isNamePart c = true := by
  obtain ⟨c, cs, rfl, hc, hcs⟩ := h
  exact List.forall_mem_cons.2 ⟨isNamePart_of_isNameStart hc, hcs⟩

theorem IsNumber.isNamePart_of_mem {text : List Char} (h : IsNumber text) :
    ∀ c ∈ text, isNamePart c = true := by
  obtain ⟨c, cs, rfl, hall⟩ := h
  exact fun d hd => isNamePart_of_isDigit (hall d hd)

theorem plain_of_isNamePart {text : List Char} (h : ∀ c ∈ text, isNamePart c = true) :
    '\n' ∉ text ∧ byteWidth text = text.length := by
  refine ⟨?_, byteWidth_of_narrow fun c hc => utf8Size_of_isNamePart (h c hc)⟩
  intro hfeed
  exact absurd (h _ hfeed) (by decide)

namespace Spells

variable {kind : Token.Kind} {text rest : List Char}

/-- A token is on one line, and its surplus is what it has more in bytes than in characters. -/
theorem surplus_eq (h : Spells (.token kind) text rest) :
    '\n' ∉ text ∧ byteWidth text = text.length + kind.surplus := by
  cases h with
  | keyword => exact plain_of_isNamePart (isWord_spelling _).isNamePart_of_mem
  | name hname => exact plain_of_isNamePart hname.1.isNamePart_of_mem
  | number hdigits => exact plain_of_isNamePart hdigits.isNamePart_of_mem
  | @mark m => cases m; decide
  | @string q value raw _ hbody =>
    have hquote : q.delimiter.utf8Size = 1 := by cases q <;> rfl
    have hwidth := hbody.byteWidth_eq
    have hle := length_le_byteWidth value.toList
    have hvalue : Token.Kind.surplus (.string value) =
        byteWidth value.toList - value.toList.length := by
      rw [byteWidth, String.ofList_toList, String.length_toList]
      rfl
    constructor
    · simp [hbody.lineFeed_notMem, q.delimiter_ne_lineFeed.symm]
    · simp only [hvalue, byteWidth_cons, byteWidth_append, byteWidth_nil, hquote,
        List.length_cons, List.length_append, List.length_nil]
      omega

/-- The end of input that is worked out from a token is right behind it. -/
theorem endBehind_eq (h : Spells (.token kind) text rest) (p : Position) :
    Token.endBehind ⟨kind, .between p (p.after text)⟩ =
      ⟨.eof, .between (p.after text) (p.after text)⟩ := by
  obtain ⟨hfeed, hwidth⟩ := h.surplus_eq
  have hlength : (Span.between p (p.after text)).length - kind.surplus = text.length := by
    rw [Span.length, Span.between, Position.offset_after, Nat.add_sub_cancel_left, hwidth,
      Nat.add_sub_cancel]
  rw [Token.endBehind, hlength, Position.after_of_notMem hfeed]
  rfl

end Spells

/-! ## Cutting a layout -/

/-- A layout that is cut behind a token is a layout of the text before the cut.  What is behind the
other pieces still begins with the same character, since the last token is not cut away. -/
theorem Layout.exists_cut {p : Position} {cs : List Char} {ts : List Token} {last : Token}
    {more : List Lexeme} (h : Layout p cs ((ts ++ [last]).map .token ++ more))
    (hlast : last.kind ≠ .eof) :
    ∃ before rest, cs = before ++ rest ∧ before ≠ [] ∧ last.span.stop = (p.after before).offset ∧
      Layout p before ((ts ++ [last, last.endBehind]).map .token) := by
  generalize hall : (ts ++ [last]).map Lexeme.token ++ more = all at h
  induction h generalizing ts with
  | done =>
    cases ts with
    | nil =>
      cases hall
      exact absurd rfl hlast
    | cons t ts => simp at hall
  | @trivia p text rest lexemes hspells _ ih =>
    obtain ⟨before, behind, rfl, hne, hstop, hlayout⟩ := ih hall
    refine ⟨text ++ before, behind, (List.append_assoc ..).symm,
      List.append_ne_nil_of_right_ne_nil _ hne, ?_, .trivia (hspells.of_append hne) hlayout⟩
    rw [hstop, Position.after_append]
  | @lexeme p text rest lexeme lexemes hspells hspan _ ih =>
    cases ts with
    | nil =>
      obtain ⟨rfl, -⟩ := List.cons.inj hall
      have hplace : last = ⟨last.kind, .between p (p.after text)⟩ := by
        rw [← hspan]
        rfl
      have hend : last.endBehind = ⟨.eof, .between (p.after text) (p.after text)⟩ := by
        rw [hplace]
        exact hspells.endBehind_eq p
      have hlayout := @Layout.lexeme p text [] (.token last) _ hspells.at_end hspan .done
      rw [List.append_nil, ← hend] at hlayout
      exact ⟨text, rest, rfl, hspells.text_ne_nil, congrArg Span.stop hspan, hlayout⟩
    | cons t ts =>
      obtain ⟨rfl, hlater⟩ := List.cons.inj hall
      obtain ⟨before, behind, rfl, hne, hstop, hlayout⟩ := ih hlater
      refine ⟨text ++ before, behind, (List.append_assoc ..).symm,
        List.append_ne_nil_of_right_ne_nil _ hne, ?_,
        .lexeme (hspells.of_append hne) hspan hlayout⟩
      rw [hstop, Position.after_append]

/-! ## Source texts -/

theorem IsReading.exists_cut {source : String} {ts : List Token} {last : Token}
    {more : List Lexeme} (h : IsReading source ((ts ++ [last]).map .token ++ more))
    (hlast : last.kind ≠ .eof) :
    ∃ before rest, source.toList = before ++ rest ∧ last.span.stop = byteWidth before ∧
      IsReading (String.ofList before) ((ts ++ [last, last.endBehind]).map .token) := by
  rcases h with ⟨hmark, hlayout⟩ | ⟨cs, hsource, hlayout⟩
  · obtain ⟨before, rest, hsplit, hne, hstop, hcut⟩ := hlayout.exists_cut hlast
    refine ⟨before, rest, hsplit, ?_, .inl ⟨?_, ?_⟩⟩
    · rw [hstop, Position.offset_after]
      exact Nat.zero_add _
    · rwa [String.toList_ofList, ← List.head?_append_of_ne_nil _ hne, ← hsplit]
    · rwa [String.toList_ofList]
  · obtain ⟨before, rest, rfl, -, hstop, hcut⟩ := hlayout.exists_cut hlast
    refine ⟨'\uFEFF' :: before, rest, hsource, ?_, .inr ⟨before, String.toList_ofList, hcut⟩⟩
    rw [hstop, Position.offset_after, byteWidth_cons]

/-- The part of a source text that lies within its first `n` bytes. -/
def upTo (source : String) (n : Nat) : String := String.ofList (charsWithin n source.toList)

section Prefix

variable {source : String} {ts : List Token} {last : Token}
  (h : (ts ++ [last]).map .token <+: Lexeme.ofString source) (hlast : last.kind ≠ .eof)
include h hlast

/-- The text that is cut off behind a token has the tokens up to there and an end of input behind
them. -/
theorem ofString_upTo :
    last.span.stop ≤ source.utf8ByteSize ∧
      (upTo source last.span.stop).utf8ByteSize = last.span.stop ∧
      Lexeme.ofString (upTo source last.span.stop) = (ts ++ [last, last.endBehind]).map .token := by
  obtain ⟨more, hmore⟩ := h
  have hreading : IsReading source ((ts ++ [last]).map .token ++ more) := isReading_iff.2 hmore
  obtain ⟨before, rest, hsource, hstop, hcut⟩ := hreading.exists_cut hlast
  have hbefore : upTo source last.span.stop = String.ofList before := by
    rw [upTo, hsource, hstop, charsWithin_byteWidth]
  have hle : last.span.stop ≤ source.utf8ByteSize := by
    rw [hstop, ← byteWidth_toList, hsource, byteWidth_append]
    exact Nat.le_add_right _ _
  rw [hbefore]
  exact ⟨hle, hstop.symm, (isReading_iff.1 hcut).symm⟩

/-- Behind a token of a text whose places are all machine words, the end of input that is made up is
right behind the token. -/
theorem Token.eofAfter_of_prefix (hsize : 1 + source.utf8ByteSize < UInt64.size) :
    last.eofAfter = last.endBehind := by
  obtain ⟨hle, -, hlexemes⟩ := ofString_upTo h hlast
  have hmem : .token last.endBehind ∈ Lexeme.ofString (upTo source last.span.stop) := by
    rw [hlexemes]
    exact List.mem_map_of_mem (by simp)
  have hplaced : last.endBehind.span.column = columnAt _ last.span.stop :=
    (isPlaced_of_mem_ofString hmem).2
  have hcolumn := columnAt_le (upTo source last.span.stop) last.span.stop
  have hword : last.endBehind.span.column < UInt64.size := by omega
  rw [eofAfter_eq, Nat.mod_eq_of_lt hword]
  rfl

end Prefix

end DeclLang
