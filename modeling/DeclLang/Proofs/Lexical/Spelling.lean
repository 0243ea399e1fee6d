import DeclLang.Lexeme.Piece
import Mathlib.Data.List.Basic

/-!
# The spelling of pieces

The lexical rules, stated apart from the functions that cut a text up.  `Spells role text rest`
says that `text` is a piece of the given role where `rest` is the text behind it.  What lies behind
a piece matters wherever the longest match is meant: a word ends where no name character follows,
a line comment where its line does, and a string that is never closed at the end of its line.

`IsWord`, `IsName` and `IsNumber` say how words, names and numbers are written.  `Escape` lists the
escapes of strings, and `Body` relates a written body to the value that it stands for.

The rest of the module reads the scanning functions by these rules: runs of characters of a class
(`takeWhile_append_of_endsRun`), the bodies of strings (`Quoted.body_splitBody` and
`Body.splitBody_append`) and the ends of comments (`Piece.splitComment_eq_none_iff` and
`Piece.splitComment_of_unclosed`).
-/

namespace DeclLang

/-! ## Words and numbers -/

/-- A word is a letter or an underscore with letters, digits and underscores behind it. -/
def IsWord (text : List Char) : Prop :=
  ∃ c cs, text = c :: cs ∧ isNameStart c = true ∧ ∀ d ∈ cs, isNamePart d = true

/-- A name is a word that is not reserved. -/
def IsName (name : String) : Prop :=
  IsWord name.toList ∧ ∀ k : Keyword, k.spelling ≠ name

/-- A number is a run of digits. -/
def IsNumber (text : List Char) : Prop :=
  ∃ c cs, text = c :: cs ∧ ∀ d ∈ c :: cs, d.isDigit = true

/-- The text `rest` does not go on with a character of the class `p`. -/
def EndsRun (p : Char → Bool) (rest : List Char) : Prop := ∀ c ∈ rest.head?, p c = false

theorem endsRun_cons {p : Char → Bool} {c : Char} {cs : List Char} :
    EndsRun p (c :: cs) ↔ p c = false := by
  simp [EndsRun]

/-- The text `rest` begins with a line end or is empty. -/
def AtLineEnd (rest : List Char) : Prop := ∀ c ∈ rest.head?, c = '\n'

/-! ## Strings -/

/-- The characters that stand for another character behind a backslash: what is written, and what
it stands for. -/
inductive Escape (q : QuoteStyle) : Char → Char → Prop where
  | lineFeed : Escape q 'n' '\n'
  | tab : Escape q 't' '\t'
  | carriageReturn : Escape q 'r' '\r'
  | nul : Escape q '0' '\x00'
  | backslash : Escape q '\\' '\\'
  | delimiter : Escape q q.delimiter q.delimiter

/-- The written bodies of strings, each with the value that it stands for.  A body has no line feed
and no delimiter without a backslash before it.  A backslash before a character without an escape
stands for itself, and so does that character. -/
inductive Body (q : QuoteStyle) : List Char → List Char → Prop where
  | nil : Body q [] []
  | plain {c : Char} {raw value : List Char} (hslash : c ≠ '\\') (hquote : c ≠ q.delimiter)
      (hfeed : c ≠ '\n') (more : Body q raw value) : Body q (c :: raw) (c :: value)
  | escape {c d : Char} {raw value : List Char} (hescape : Escape q c d)
      (more : Body q raw value) : Body q ('\\' :: c :: raw) (d :: value)
  | verbatim {c : Char} {raw value : List Char} (hescape : ∀ d, ¬ Escape q c d) (hfeed : c ≠ '\n')
      (more : Body q raw value) : Body q ('\\' :: c :: raw) ('\\' :: c :: value)

/-! ## Comments -/

/-- The text has no `*/` in it. -/
def Unclosed (cs : List Char) : Prop := ¬ ['*', '/'] <:+: cs

/-! ## Pieces -/

/-- Something other than a stray character begins with `c` where `rest` is behind it. -/
def Begins (c : Char) (rest : List Char) : Prop :=
  isBlank c = true ∨ c = '=' ∨ c.isDigit = true ∨ isNameStart c = true ∨
    (∃ q : QuoteStyle, c = q.delimiter) ∨
    (c = '/' ∧ (rest.head? = some '/' ∨ rest.head? = some '*'))

/-- `Spells role text rest`: with the text `rest` behind it, `text` is a piece of that role. -/
inductive Spells : Piece.Role → List Char → List Char → Prop where
  | blank {c : Char} {rest : List Char} (h : c ∈ [' ', '\t', '\r', '\n']) :
      Spells .trivia [c] rest
  | lineComment {body rest : List Char} (hbody : '\n' ∉ body) (hrest : AtLineEnd rest) :
      Spells .trivia ('/' :: '/' :: body) rest
  | blockComment {body rest : List Char} (hbody : Unclosed (body ++ ['*'])) :
      Spells .trivia ('/' :: '*' :: (body ++ ['*', '/'])) rest
  | keyword {k : Keyword} {rest : List Char} (hrest : EndsRun isNamePart rest) :
      Spells (.token (.keyword k)) k.spelling.toList rest
  | name {name : String} {rest : List Char} (hname : IsName name)
      (hrest : EndsRun isNamePart rest) : Spells (.token (.ident name)) name.toList rest
  | number {digits : String} {rest : List Char} (hdigits : IsNumber digits.toList)
      (hrest : EndsRun Char.isDigit rest) : Spells (.token (.int digits)) digits.toList rest
  | mark {m : Punctuation} {rest : List Char} :
      Spells (.token (.punctuation m)) m.spelling.toList rest
  | string {q : QuoteStyle} {value : String} {raw rest : List Char}
      (hbody : Body q raw value.toList) :
      Spells (.token (.string value)) (q.delimiter :: (raw ++ [q.delimiter])) rest
  | openString {q : QuoteStyle} {raw value rest : List Char} (hbody : Body q raw value)
      (hrest : AtLineEnd rest) : Spells (.fault .unterminatedString) (q.delimiter :: raw) rest
  | openEscape {q : QuoteStyle} {raw value rest : List Char} (hbody : Body q raw value)
      (hrest : AtLineEnd rest) :
      Spells (.fault .unterminatedString) (q.delimiter :: (raw ++ ['\\'])) rest
  | openComment {body : List Char} (hbody : Unclosed body) :
      Spells (.fault .unterminatedComment) ('/' :: '*' :: body) []
  | stray {c : Char} {rest : List Char} (h : ¬ Begins c rest) :
      Spells (.fault (.unexpectedChar c)) [c] rest

/-! ## Reading the classes of characters -/

theorem isAlpha_iff {c : Char} :
    c.isAlpha = true ↔ 65 ≤ c.toNat ∧ c.toNat ≤ 90 ∨ 97 ≤ c.toNat ∧ c.toNat ≤ 122 := by
  have halpha : c.isAlpha = (decide (65 ≤ c.val ∧ c.val ≤ 90) ||
      (decide (97 ≤ c.val) && decide (c.val ≤ 122))) := rfl
  simp only [halpha, Bool.or_eq_true, Bool.and_eq_true, decide_eq_true_eq, UInt32.le_iff_toNat_le]
  rfl

theorem isDigit_of_isAlpha {c : Char} (h : c.isAlpha = true) : c.isDigit = false := by
  have h9 : '9'.toNat = 57 := rfl
  rw [isAlpha_iff] at h
  rw [Bool.eq_false_iff, Ne, Char.isDigit_iff_toNat]
  omega

theorem isDigit_of_isNameStart {c : Char} (h : isNameStart c = true) : c.isDigit = false := by
  simp only [isNameStart, Bool.or_eq_true, beq_iff_eq] at h
  rcases h with halpha | rfl
  · exact isDigit_of_isAlpha halpha
  · decide

theorem isBlank_iff {c : Char} : isBlank c = true ↔ c ∈ [' ', '\t', '\r', '\n'] := by
  simp [isBlank, or_assoc]

theorem isBlank_of_isNamePart {c : Char} (h : isNamePart c = true) : isBlank c = false := by
  rw [Bool.eq_false_iff, Ne, isBlank_iff]
  intro hc
  simp only [List.mem_cons, List.not_mem_nil, or_false] at hc
  rcases hc with rfl | rfl | rfl | rfl <;> exact absurd h (by decide)

theorem isNamePart_of_isNameStart {c : Char} (h : isNameStart c = true) : isNamePart c = true := by
  simp only [isNameStart, isNamePart, Char.isAlphanum, Bool.or_eq_true] at h ⊢
  tauto

theorem isNamePart_of_isDigit {c : Char} (h : c.isDigit = true) : isNamePart c = true := by
  simp [isNamePart, Char.isAlphanum, h]

theorem IsWord.ne_nil {text : List Char} (h : IsWord text) : text ≠ [] := by
  obtain ⟨c, cs, rfl, -⟩ := h
  simp

theorem IsNumber.ne_nil {text : List Char} (h : IsNumber text) : text ≠ [] := by
  obtain ⟨c, cs, rfl, -⟩ := h
  simp

theorem isWord_spelling (k : Keyword) : IsWord k.spelling.toList := by
  cases k with
  | «import» =>
    exact ⟨'i', ['m', 'p', 'o', 'r', 't'], rfl, by decide, List.all_eq_true.1 (by decide)⟩
  | func => exact ⟨'f', ['u', 'n', 'c'], rfl, by decide, List.all_eq_true.1 (by decide)⟩
  | var => exact ⟨'v', ['a', 'r'], rfl, by decide, List.all_eq_true.1 (by decide)⟩

/-- A run of a class, of characters or of anything else, is cut off where what is behind it stops
going on with the class. -/
theorem takeWhile_append_of_endsRun {α : Type} {p : α → Bool} {run rest : List α}
    (hrun : ∀ a ∈ run, p a = true) (hrest : ∀ a ∈ rest.head?, p a = false) :
    (run ++ rest).takeWhile p = run := by
  rw [List.takeWhile_append_of_pos hrun]
  cases rest with
  | nil => simp
  | cons a rest =>
    have ha : p a = false := hrest a rfl
    simp [ha]

theorem dropWhile_append_of_endsRun {α : Type} {p : α → Bool} {run rest : List α}
    (hrun : ∀ a ∈ run, p a = true) (hrest : ∀ a ∈ rest.head?, p a = false) :
    (run ++ rest).dropWhile p = rest := by
  rw [List.dropWhile_append_of_pos hrun]
  cases rest with
  | nil => simp
  | cons a rest =>
    have ha : p a = false := hrest a rfl
    simp [ha]

/-- A run of a class and what is behind it are told by the two put together. -/
theorem append_inj_of_endsRun {α : Type} {p : α → Bool} {run run' rest rest' : List α}
    (hrun : ∀ a ∈ run, p a = true) (hrest : ∀ a ∈ rest.head?, p a = false)
    (hrun' : ∀ a ∈ run', p a = true) (hrest' : ∀ a ∈ rest'.head?, p a = false)
    (h : run ++ rest = run' ++ rest') : run = run' ∧ rest = rest' := by
  have hfront := takeWhile_append_of_endsRun hrun hrest
  have hback := dropWhile_append_of_endsRun hrun hrest
  rw [h, takeWhile_append_of_endsRun hrun' hrest'] at hfront
  rw [h, dropWhile_append_of_endsRun hrun' hrest'] at hback
  exact ⟨hfront.symm, hback.symm⟩

theorem endsRun_dropWhile (p : Char → Bool) (cs : List Char) : EndsRun p (cs.dropWhile p) := by
  intro c hc
  have hhead := List.head?_dropWhile_not p cs
  rw [Option.mem_def.1 hc] at hhead
  exact hhead

theorem mem_takeWhile {α : Type} {p : α → Bool} {as : List α} : ∀ a ∈ as.takeWhile p, p a = true :=
  List.all_eq_true.1 List.all_takeWhile

/-! ## Reading strings -/

theorem QuoteStyle.delimiter_ne_backslash (q : QuoteStyle) : q.delimiter ≠ '\\' := by
  cases q <;> decide

theorem QuoteStyle.delimiter_ne_lineFeed (q : QuoteStyle) : q.delimiter ≠ '\n' := by
  cases q <;> decide

theorem Escape.ne_lineFeed {q : QuoteStyle} {c d : Char} (h : Escape q c d) : c ≠ '\n' := by
  cases h with
  | delimiter => exact q.delimiter_ne_lineFeed
  | _ => decide

/-- The table of escapes is the one that strings are read by. -/
theorem Quoted.escaped?_eq_some_iff {q : QuoteStyle} {c d : Char} :
    escaped? q c = some d ↔ Escape q c d := by
  constructor
  · intro h
    unfold escaped? at h
    split at h
    · next hc => cases h; subst hc; exact .lineFeed
    split at h
    · next hc => cases h; subst hc; exact .tab
    split at h
    · next hc => cases h; subst hc; exact .carriageReturn
    split at h
    · next hc => cases h; subst hc; exact .nul
    split at h
    · next hc => cases h; subst hc; exact .backslash
    split at h
    · next hc => cases h; subst hc; exact .delimiter
    · cases h
  · intro h
    cases h with
    | delimiter => cases q <;> rfl
    | _ => rfl

theorem Quoted.escaped?_eq_none_iff {q : QuoteStyle} {c : Char} :
    escaped? q c = none ↔ ∀ d, ¬ Escape q c d := by
  simp only [← escaped?_eq_some_iff, Option.eq_none_iff_forall_ne_some, ne_eq]

namespace Body

variable {q : QuoteStyle} {raw value : List Char}

/-- A body has no line feed. -/
theorem lineFeed_notMem (h : Body q raw value) : '\n' ∉ raw := by
  induction h with
  | nil => simp
  | plain _ _ hfeed _ ih => simp [ih, hfeed.symm]
  | escape hescape _ ih => simp [ih, hescape.ne_lineFeed.symm]
  | verbatim _ hfeed _ ih => simp [ih, hfeed.symm]

/-- A written body is decoded to the value that it stands for. -/
theorem decodeBody_eq (h : Body q raw value) : Quoted.decodeBody q raw = value := by
  induction h with
  | nil => rfl
  | @plain c raw value hslash _ _ _ ih =>
    rw [Quoted.decodeBody.eq_3 _ _ _ (fun _ _ hc _ => hslash hc), ih]
  | escape hescape _ ih =>
    rw [Quoted.decodeBody, Quoted.escaped?_eq_some_iff.2 hescape, ih]
    rfl
  | verbatim hescape _ _ ih =>
    rw [Quoted.decodeBody, Quoted.escaped?_eq_none_iff.2 hescape, ih]
    rfl

/-- Splitting a text goes over a body and on with the text behind it. -/
theorem splitBody_append (h : Body q raw value) (rest : List Char) :
    Quoted.splitBody q (raw ++ rest) =
      (raw ++ (Quoted.splitBody q rest).1, (Quoted.splitBody q rest).2) := by
  induction h with
  | nil => rfl
  | @plain c raw value hslash hquote hfeed _ ih =>
    rw [List.cons_append, Quoted.splitBody.eq_3 _ _ _ (fun _ _ hc _ => hslash hc),
      if_neg (not_or.2 ⟨hquote, hfeed⟩), ih]
    rfl
  | escape hescape _ ih =>
    rw [List.cons_append, List.cons_append, Quoted.splitBody, if_neg hescape.ne_lineFeed, ih]
    rfl
  | verbatim _ hfeed _ ih =>
    rw [List.cons_append, List.cons_append, Quoted.splitBody, if_neg hfeed, ih]
    rfl

end Body

/-- What splitting leaves of a text: a body that ends before the delimiter or with its line, or a
body with a lone backslash behind it that ends with its line. -/
theorem Quoted.body_splitBody (q : QuoteStyle) (cs : List Char) :
    (∃ value, Body q (splitBody q cs).1 value ∧
      ((splitBody q cs).2.head? = some q.delimiter ∨ AtLineEnd (splitBody q cs).2)) ∨
    (∃ raw value, Body q raw value ∧ (splitBody q cs).1 = raw ++ ['\\'] ∧
      AtLineEnd (splitBody q cs).2) := by
  fun_induction splitBody q cs with
  | case1 => exact .inl ⟨[], .nil, .inr (by simp [AtLineEnd])⟩
  | case2 cs => exact .inr ⟨[], [], .nil, rfl, by simp [AtLineEnd]⟩
  | case3 c cs hfeed split ih =>
    -- The backslash takes `c` with it, whether or not the two are an escape.
    have hpair : ∀ {raw value}, Body q raw value → ∃ v, Body q ('\\' :: c :: raw) v := by
      intro raw value hbody
      cases hc : escaped? q c with
      | none => exact ⟨_, .verbatim (escaped?_eq_none_iff.1 hc) hfeed hbody⟩
      | some d => exact ⟨_, .escape (escaped?_eq_some_iff.1 hc) hbody⟩
    rcases ih with ⟨value, hbody, hend⟩ | ⟨raw, value, hbody, hraw, hend⟩
    · obtain ⟨v, hv⟩ := hpair hbody
      exact .inl ⟨v, hv, hend⟩
    · obtain ⟨v, hv⟩ := hpair hbody
      exact .inr ⟨_, v, hv, by simp [split, hraw], hend⟩
  | case4 c cs hslash hend =>
    refine .inl ⟨[], .nil, ?_⟩
    rcases hend with rfl | rfl
    · exact .inl rfl
    · exact .inr (by simp [AtLineEnd])
  | case5 c cs hslash hc split ih =>
    obtain ⟨hquote, hfeed⟩ := not_or.1 hc
    by_cases hback : c = '\\'
    · -- A backslash without a character behind it ends the text.
      subst hback
      cases cs with
      | nil => exact .inr ⟨[], [], .nil, rfl, by simp [split, splitBody, AtLineEnd]⟩
      | cons d ds => exact absurd rfl (hslash d ds rfl)
    · rcases ih with ⟨value, hbody, hend⟩ | ⟨raw, value, hbody, hraw, hend⟩
      · exact .inl ⟨_, .plain hback hquote hfeed hbody, hend⟩
      · exact .inr ⟨_, _, .plain hback hquote hfeed hbody, by simp [split, hraw], hend⟩

theorem Quoted.splitBody_of_head {q : QuoteStyle} {rest : List Char}
    (h : rest.head? = some q.delimiter ∨ AtLineEnd rest) : splitBody q rest = ([], rest) := by
  cases rest with
  | nil => rfl
  | cons c cs =>
    have hc : c = q.delimiter ∨ c = '\n' := by
      simpa [AtLineEnd] using h
    have hslash : c ≠ '\\' := by
      rcases hc with rfl | rfl
      · exact q.delimiter_ne_backslash
      · decide
    rw [splitBody.eq_3 _ _ _ (fun _ _ hb _ => hslash hb), if_pos hc]

theorem Quoted.splitBody_backslash {q : QuoteStyle} {rest : List Char} (h : AtLineEnd rest) :
    splitBody q ('\\' :: rest) = (['\\'], rest) := by
  cases rest with
  | nil => cases q <;> rfl
  | cons c rest =>
    obtain rfl : c = '\n' := h c rfl
    rfl

/-! ## Reading comments -/

@[simp]
theorem unclosed_nil : Unclosed [] := by simp [Unclosed]

theorem unclosed_cons {c : Char} {cs : List Char} :
    Unclosed (c :: cs) ↔ ¬ (c = '*' ∧ cs.head? = some '/') ∧ Unclosed cs := by
  unfold Unclosed
  rw [List.infix_cons_iff, not_or, List.cons_prefix_cons]
  have hhead : ['/'] <+: cs ↔ cs.head? = some '/' := by
    cases cs <;> simp [List.cons_prefix_cons, @eq_comm _ '/']
  rw [hhead, @eq_comm _ '*' c]

/-- The star of a `*/` behind the text does not close a comment before it. -/
theorem Unclosed.concat_star {cs : List Char} (h : Unclosed cs) : Unclosed (cs ++ ['*']) := by
  unfold Unclosed at h ⊢
  rw [List.infix_concat_iff, not_or]
  refine ⟨?_, h⟩
  intro hsuffix
  have hlast := hsuffix.getLast (by simp)
  simp at hlast

theorem Piece.splitComment_eq_none_iff {cs : List Char} :
    splitComment cs = none ↔ Unclosed cs := by
  fun_induction splitComment cs with
  | case1 => simp
  | case2 cs => simp [unclosed_cons]
  | case3 c cs hclose ih =>
    have hfirst : ¬ (c = '*' ∧ cs.head? = some '/') := by
      rintro ⟨rfl, hslash⟩
      obtain ⟨ds, rfl⟩ := List.head?_eq_some_iff.1 hslash
      exact hclose ds rfl rfl
    simp [unclosed_cons, hfirst, ih]

/-- What is split off a text ends with `*/` and has none before that. -/
theorem Piece.unclosed_of_splitComment {cs body rest : List Char}
    (h : splitComment cs = some (body, rest)) :
    ∃ inner, body = inner ++ ['*', '/'] ∧ Unclosed (inner ++ ['*']) := by
  fun_induction splitComment cs generalizing body with
  | case1 => cases h
  | case2 cs =>
    cases h
    exact ⟨[], rfl, by simp [unclosed_cons]⟩
  | case3 c cs hclose ih =>
    obtain ⟨⟨inside, behind⟩, hsplit, heq⟩ := Option.map_eq_some_iff.1 h
    cases heq
    obtain ⟨inner, rfl, hinner⟩ := ih hsplit
    refine ⟨c :: inner, rfl, unclosed_cons.2 ⟨?_, hinner⟩⟩
    rintro ⟨rfl, hslash⟩
    cases inner with
    | nil => simp at hslash
    | cons d inner =>
      obtain rfl : d = '/' := by simpa using hslash
      have hcs := splitComment_append hsplit
      exact hclose _ rfl hcs.symm

/-- A text is split behind its first `*/`. -/
theorem Piece.splitComment_of_unclosed {inner : List Char} (h : Unclosed (inner ++ ['*']))
    (rest : List Char) :
    splitComment (inner ++ '*' :: '/' :: rest) = some (inner ++ ['*', '/'], rest) := by
  induction inner with
  | nil => rfl
  | cons c inner ih =>
    obtain ⟨hfirst, hinner⟩ := unclosed_cons.1 h
    have hclose : ∀ ds, c = '*' → inner ++ '*' :: '/' :: rest = '/' :: ds → False := by
      rintro ds rfl hds
      cases inner with
      | nil => simp at hds
      | cons d inner =>
        obtain ⟨rfl, -⟩ := List.cons.inj hds
        exact hfirst ⟨rfl, rfl⟩
    rw [List.cons_append, splitComment.eq_3 _ _ hclose, ih hinner]
    rfl

end DeclLang
