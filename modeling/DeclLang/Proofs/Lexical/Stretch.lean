import DeclLang.Proofs.Lexical.Roles
import DeclLang.Proofs.Lexical.Stream
import DeclLang.Proofs.Lexical.Truncation
import Mathlib.Data.String.Basic

/-!
# Stretches of a source text read on their own

A stretch of a source text can be cut out and read as a source text.  Where it begins with a token
and ends with a token, its lexemes are the tokens of the stretch, moved to the beginning of a text,
with an end of input behind them (`ofString_textIn`).  Three things are behind this.

* What is before a piece does not matter to it, so a layout can be cut in front of each of its
  lexemes (`Layout.exists_suffix`).
* What is behind a token matters to it only where something is, so a layout can be cut behind each
  of its tokens too (`Layout.exists_cut`).
* Where a text begins has an influence on the places of its lexemes only (`Layout.exists_moved`).

A text that is one token and nothing else is the smallest such stretch: `Spells.lex_eq_alone` and
`spells_of_lex_eq` say that lexing finds just that token exactly if the text spells it.
-/

namespace DeclLang

/-! ## The text of a span -/

/-- The text that a span covers. -/
def Span.textIn (source : String) (s : Span) : String :=
  String.Pos.Raw.extract source ⟨s.start⟩ ⟨s.stop⟩

/-- The span covers a stretch of the source text that is not empty: its two ends lie in the text, each
of them between two characters. -/
def Span.IsWithin (source : String) (s : Span) : Prop :=
  s.start < s.stop ∧ String.Pos.Raw.IsValid source ⟨s.start⟩ ∧
    String.Pos.Raw.IsValid source ⟨s.stop⟩

theorem utf8Len_eq_byteWidth (cs : List Char) : String.utf8Len cs = byteWidth cs := by
  induction cs with
  | nil => rfl
  | cons c cs ih => rw [String.utf8Len_cons, byteWidth_cons, ih, Nat.add_comm]

section Split

variable {source : String} {s : Span} {before text rest : List Char}
  (hsource : source.toList = before ++ text ++ rest) (hstart : s.start = byteWidth before)
  (hstop : s.stop = byteWidth (before ++ text))
include hsource hstart hstop

theorem Span.textIn_eq : s.textIn source = String.ofList text := by
  have hextract := String.extract_of_valid before text rest
  rwa [utf8Len_eq_byteWidth, utf8Len_eq_byteWidth, ← byteWidth_append, ← hsource,
    String.ofList_toList, ← hstart, ← hstop] at hextract

theorem Span.isWithin_of_ne_nil (htext : text ≠ []) : s.IsWithin source := by
  have hpos := byteWidth_pos htext
  refine ⟨?_, ?_, ?_⟩
  · rw [hstart, hstop, byteWidth_append]
    omega
  · rw [hstart]
    exact isValid_of_toList (by rw [hsource, List.append_assoc])
  · rw [hstop]
    exact isValid_of_toList hsource

theorem Span.utf8ByteSize_textIn : (s.textIn source).utf8ByteSize = s.length := by
  rw [Span.textIn_eq hsource hstart hstop, Span.length, hstart, hstop, byteWidth_append,
    Nat.add_sub_cancel_left]
  rfl

end Split

/-! ## Texts of one token -/

/-- The tokens of a text that is one token of the given kind and nothing else: that token, from the
beginning of the text to its end, and the end of input right behind it. -/
def Token.alone (kind : Kind) (text : String) : List Token :=
  let size := text.utf8ByteSize
  [⟨kind, ⟨0, size, 1, 1⟩⟩, ⟨.eof, ⟨size, size, 1, 1 + text.length⟩⟩]

/-- A text that is spelled as a token is lexed as that token. -/
theorem Spells.lex_eq_alone {kind : Token.Kind} {text : String} {rest : List Char}
    (h : Spells (.token kind) text.toList rest) : lex text = .ok (Token.alone kind text) := by
  have hafter : Position.start.after text.toList =
      ⟨text.utf8ByteSize, 1, 1 + text.length⟩ := by
    rw [Position.after_of_notMem h.surplus_eq.1, byteWidth_toList, String.length_toList]
    simp [Position.start]
  have hlayout := @Layout.lexeme .start text.toList [] (.token ⟨kind, _⟩) _ h.at_end rfl .done
  rw [List.append_nil, hafter] at hlayout
  rw [lex_eq_ok_iff, eq_comm, ← isReading_iff]
  exact .inl ⟨h.head?_ne_byteOrderMark (by simp), hlayout⟩

/-- A text that is lexed as one token, which covers all of it, is spelled as that token. -/
theorem spells_of_lex_eq {t eof : Token} {text : String} (h : lex text = .ok [t, eof])
    (hstart : t.span.start = 0) (hstop : t.span.stop = text.utf8ByteSize) :
    Spells (.token t.kind) text.toList [] := by
  have hreading : IsReading text [.token t, .token eof] := isReading_iff.2 (lex_eq_ok_iff.1 h).symm
  obtain ⟨init, last, hlexemes, -, -, -, hinit⟩ := hreading.coversSource
  obtain rfl : init = [.token t] := by
    have hinit' := congrArg List.dropLast hlexemes
    rw [List.dropLast_concat] at hinit'
    exact hinit'.symm
  obtain ⟨before, covered, rest, htext, -, hfirst, hlast, hspells⟩ :=
    hinit _ (List.mem_singleton_self _)
  have hsize : byteWidth (before ++ covered) + byteWidth rest = text.utf8ByteSize := by
    rw [← byteWidth_append, ← htext, byteWidth_toList]
  obtain rfl : before = [] := eq_nil_of_byteWidth_eq_zero (hfirst.symm.trans hstart)
  obtain rfl : rest = [] := by
    refine eq_nil_of_byteWidth_eq_zero ?_
    rw [← hlast, Lexeme.span, hstop] at hsize
    omega
  rw [htext, List.nil_append, List.append_nil]
  exact hspells

/-! ## Cutting a layout -/

namespace Layout

variable {p q : Position} {cs : List Char}

/-- A layout can be cut in front of each of its lexemes. -/
theorem exists_suffix {first more : List Lexeme} {lexeme : Lexeme}
    (h : Layout p cs (first ++ lexeme :: more)) :
    ∃ before rest, cs = before ++ rest ∧ lexeme.span.start = (p.after before).offset ∧
      Layout (p.after before) rest (lexeme :: more) := by
  generalize hall : first ++ lexeme :: more = all at h
  induction h generalizing first with
  | @done p =>
    cases first with
    | nil =>
      cases hall
      exact ⟨[], [], rfl, rfl, .done⟩
    | cons other first => simp at hall
  | trivia hspells _ ih =>
    obtain ⟨before, rest, rfl, hstart, hlayout⟩ := ih hall
    rw [← Position.after_append] at hstart hlayout
    exact ⟨_, rest, (List.append_assoc ..).symm, hstart, hlayout⟩
  | @lexeme p text rest other later hspells hspan hmore ih =>
    cases first with
    | nil =>
      obtain ⟨rfl, rfl⟩ := List.cons.inj hall
      exact ⟨[], text ++ rest, rfl, congrArg Span.start hspan, .lexeme hspells hspan hmore⟩
    | cons other first =>
      obtain ⟨before, rest, rfl, hstart, hlayout⟩ := ih (List.cons.inj hall).2
      rw [← Position.after_append] at hstart hlayout
      exact ⟨_, rest, (List.append_assoc ..).symm, hstart, hlayout⟩

end Layout

/-- The token `moved` is the token `t`, so many bytes further to the front. -/
def Token.MovedBy (bytes : Nat) (t moved : Token) : Prop :=
  moved.kind = t.kind ∧ t.span.start = moved.span.start + bytes ∧
    t.span.stop = moved.span.stop + bytes

/-- Places stay at the same distance when both move over the same text. -/
theorem Position.offset_after_eq {p q : Position} {bytes : Nat} (h : p.offset = q.offset + bytes)
    (text : List Char) : (p.after text).offset = (q.after text).offset + bytes := by
  rw [offset_after, offset_after, h, Nat.add_right_comm]

/-- Wherever it begins, a text has the same tokens, at the same distances from its beginning. -/
theorem Layout.exists_moved {p q : Position} {cs : List Char} {ts : List Token} {bytes : Nat}
    (h : Layout p cs (ts.map .token)) (hbytes : p.offset = q.offset + bytes) :
    ∃ moved, Layout q cs (moved.map .token) ∧ List.Forall₂ (Token.MovedBy bytes) ts moved := by
  generalize hall : ts.map Lexeme.token = all at h
  induction h generalizing ts q with
  | done =>
    obtain ⟨eof, rfl, heof⟩ := List.map_eq_singleton_iff.1 hall
    cases heof
    exact ⟨[⟨.eof, .between q q⟩], .done, .cons ⟨rfl, hbytes, hbytes⟩ .nil⟩
  | @trivia _ text _ _ hspells _ ih =>
    obtain ⟨moved, hlayout, hmoved⟩ := ih (Position.offset_after_eq hbytes text) hall
    exact ⟨moved, .trivia hspells hlayout, hmoved⟩
  | @lexeme _ text _ _ _ hspells hspan _ ih =>
    obtain ⟨t, later, rfl, rfl, hlater⟩ := List.map_eq_cons_iff.1 hall
    have hstop := Position.offset_after_eq hbytes text
    obtain ⟨moved, hlayout, hmoved⟩ := ih hstop hlater
    have hspan' : t.span = _ := hspan
    refine ⟨⟨t.kind, .between q (q.after text)⟩ :: moved, .lexeme hspells rfl hlayout,
      .cons ⟨rfl, ?_, ?_⟩ hmoved⟩
    · rw [hspan']
      exact hbytes
    · rw [hspan']
      exact hstop

/-- A text that has only tokens does not begin with a byte order mark. -/
theorem Layout.head?_ne_byteOrderMark {p : Position} {cs : List Char} {ts : List Token}
    (h : Layout p cs (ts.map .token)) : cs.head? ≠ some '\uFEFF' := by
  generalize hall : ts.map Lexeme.token = all at h
  cases h with
  | done => nofun
  | trivia hspells _ =>
    rw [List.head?_append_of_ne_nil _ hspells.text_ne_nil]
    exact hspells.head?_ne_byteOrderMark (by simp)
  | lexeme hspells _ _ =>
    obtain ⟨t, later, rfl, rfl, -⟩ := List.map_eq_cons_iff.1 hall
    rw [List.head?_append_of_ne_nil _ hspells.text_ne_nil]
    exact hspells.head?_ne_byteOrderMark (by simp [Lexeme.role])

/-! ## Source texts -/

/-- A stretch of a source text from the beginning of a token to the end of one, read on its own, has
the tokens of the stretch, moved to the front, and behind them an end of input. -/
theorem ofString_textIn {source : String} {before after ts : List Token} {first last : Token}
    {s : Span} (h : Lexeme.ofString source = (before ++ (ts ++ [last]) ++ after).map .token)
    (hlast : last.kind ≠ .eof) (hfirst : (ts ++ [last]).head? = some first)
    (hstart : s.start = first.span.start) (hstop : s.stop = last.span.stop) :
    s.IsWithin source ∧ (s.textIn source).utf8ByteSize = s.length ∧
      ∃ moved, Lexeme.ofString (s.textIn source) = moved.map .token ∧
        List.Forall₂ (Token.MovedBy s.start) (ts ++ [last, last.endBehind]) moved := by
  have hreading : IsReading source (Lexeme.ofString source) := isReading_iff.2 rfl
  obtain ⟨mark, p, cs, hsource, hoffset, hlayout⟩ := hreading.exists_layout
  obtain ⟨more, hmore⟩ := List.head?_eq_some_iff.1 hfirst
  -- In front of the first token everything can be cut off, and behind the last.
  have hcut : (before ++ (ts ++ [last]) ++ after).map Lexeme.token =
      before.map .token ++ .token first :: (more ++ after).map .token := by
    simp [hmore]
  rw [h, hcut] at hlayout
  obtain ⟨skipped, rest, rfl, hskipped, hsuffix⟩ := hlayout.exists_suffix
  have hfront : Lexeme.token first :: (more ++ after).map .token =
      (ts ++ [last]).map .token ++ after.map .token := by
    simp [hmore]
  rw [hfront] at hsuffix
  obtain ⟨text, behind, rfl, htext, hend, hstretch⟩ := hsuffix.exists_cut hlast
  have hbegin : (p.after skipped).offset = s.start := hskipped.symm.trans hstart.symm
  have hsplit : source.toList = (mark ++ skipped) ++ text ++ behind := by
    rw [hsource, List.append_assoc, List.append_assoc]
  have hwidth : s.start = byteWidth (mark ++ skipped) := by
    rw [← hbegin, Position.offset_after, hoffset, byteWidth_append]
  have hwidth' : s.stop = byteWidth (mark ++ skipped ++ text) := by
    rw [hstop, hend, Position.offset_after, hbegin, hwidth, byteWidth_append _ text]
  obtain ⟨moved, hmoved, htokens⟩ := hstretch.exists_moved
    (hbegin.trans (Nat.zero_add _).symm : _ = Position.start.offset + s.start)
  refine ⟨Span.isWithin_of_ne_nil hsplit hwidth hwidth' htext,
    Span.utf8ByteSize_textIn hsplit hwidth hwidth', moved, ?_, htokens⟩
  rw [Span.textIn_eq hsplit hwidth hwidth', eq_comm, ← isReading_iff]
  have hhead := hmoved.head?_ne_byteOrderMark
  exact .inl (by rw [String.toList_ofList]; exact ⟨hhead, hmoved⟩)

end DeclLang
