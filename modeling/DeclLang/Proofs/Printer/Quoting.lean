import DeclLang.Proofs.Lexical.Stretch
import DeclLang.Proofs.Printer.Canonical

/-!
# Quoting and lexing strings

A value that is written between quotes is lexed as that value again (`Spells.lex_eq_alone` at
`spells_encode`).  The other way round, most values can be written in several ways, and quoting
chooses one of them.  It escapes every tab, carriage return and null character, and no backslash
that it writes is without an escape: `Body.encodeBody_eq_iff` says that there is one such way only.

`quote_lex_inverse` is the two ways together.
-/

namespace DeclLang

variable {q : QuoteStyle} {c d : Char}

/-! ## Characters -/

theorem QuoteStyle.delimiter_injective : Function.Injective delimiter := by
  intro q q' h
  have hq : ofDelimiter? q.delimiter = some q := ofDelimiter?_eq_some_iff.2 rfl
  have hq' : ofDelimiter? q'.delimiter = some q' := ofDelimiter?_eq_some_iff.2 rfl
  rw [h, hq'] at hq
  exact (Option.some.inj hq).symm

/-- The characters that have a meaning behind a backslash. -/
theorem exists_escape_iff : (∃ d, Escape q c d) ↔ c ∈ ['n', 't', 'r', '0', '\\', q.delimiter] := by
  simp [escape_iff, exists_or]

theorem Escape.notMem_controls (h : Escape q c d) : c ∉ ['\n', '\t', '\r', '\x00'] := by
  cases h with
  | delimiter => cases q <;> decide
  | _ => decide

/-! ## What quoting writes -/

/-- Quoting leaves no line feed, tab, carriage return or null character in the text. -/
theorem Quoted.notMem_encodeBody (q : QuoteStyle) (value : List Char)
    (hd : d ∈ ['\n', '\t', '\r', '\x00']) : d ∉ encodeBody q value := by
  intro hmem
  obtain ⟨c, -, hc⟩ := List.mem_flatMap.1 hmem
  by_cases hescape : ∃ w, Escape q w c
  · obtain ⟨w, hw⟩ := hescape
    rw [hw.escape_eq] at hc
    simp only [List.mem_cons, List.not_mem_nil, or_false] at hc
    rcases hc with rfl | rfl
    · exact absurd hd (by decide)
    · exact hw.notMem_controls hd
  · -- A character that stands for itself has no escape, and a control character has one.
    have hnone := not_exists.1 hescape
    rw [escape_eq_self hnone, List.mem_singleton] at hc
    subst hc
    apply hescape
    rw [exists_escape_to_iff]
    exact List.mem_append_left ['\\', q.delimiter] hd

/-- Different values are written differently. -/
theorem Quoted.encode_injective (q : QuoteStyle) : Function.Injective (encode q) := by
  intro value other h
  have hbody : encodeBody q value.toList = encodeBody q other.toList := by
    rw [← String.toList_inj, encode, encode, String.toList_ofList, String.toList_ofList,
      List.cons_append, List.cons_append, List.cons_inj_right, List.append_left_inj] at h
    exact h
  rw [← String.toList_inj, ← decodeBody_encodeBody q value.toList, hbody, decodeBody_encodeBody]

theorem Quoted.lineFeed_notMem_encode (q : QuoteStyle) (value : String) :
    '\n' ∉ (encode q value).toList := by
  have hbody := notMem_encodeBody q value.toList (d := '\n') (by simp)
  simp [encode, hbody, q.delimiter_ne_lineFeed.symm]

/-- The second characters of the escape pairs of a written body.  A backslash that is itself the
second character of a pair begins none. -/
def Quoted.escapePairs : List Char → List Char
  | [] => []
  | '\\' :: c :: cs => c :: escapePairs cs
  | _ :: cs => escapePairs cs

theorem Quoted.escapePairs_cons (hslash : c ≠ '\\') (cs : List Char) :
    escapePairs (c :: cs) = escapePairs cs := by
  rw [escapePairs]
  rintro _ _ rfl
  exact absurd rfl hslash

/-- Among all the written bodies of a value, quoting chooses the one that has none of the control
characters with an escape in it and no backslash without an escape. -/
theorem Body.encodeBody_eq_iff {raw value : List Char} (h : Body q raw value) :
    Quoted.encodeBody q value = raw ↔
      (∀ d ∈ ['\t', '\r', '\x00'], d ∉ raw) ∧ ∀ c ∈ Quoted.escapePairs raw, ∃ d, Escape q c d := by
  induction h with
  | nil => simp [Quoted.encodeBody, Quoted.escapePairs]
  | @plain c raw value hslash hquote hfeed more ih =>
    rw [Quoted.encodeBody_cons, Quoted.escapePairs_cons hslash]
    by_cases hcontrol : c ∈ ['\t', '\r', '\x00']
    · have hmem : c ∈ ['\n', '\t', '\r', '\x00', '\\', q.delimiter] :=
        List.mem_cons_of_mem _ (List.mem_append_left ['\\', q.delimiter] hcontrol)
      obtain ⟨w, hw⟩ := exists_escape_to_iff.2 hmem
      rw [hw.escape_eq]
      constructor
      · intro heq
        exact absurd (List.cons.inj heq).1.symm hslash
      · rintro ⟨hraw, -⟩
        exact absurd List.mem_cons_self (hraw c hcontrol)
    · have hself : Quoted.escape q c = [c] := by
        apply Quoted.escape_eq_self
        rw [← not_exists, exists_escape_to_iff]
        simp_all
      have hraw : (∀ d ∈ ['\t', '\r', '\x00'], d ∉ c :: raw) ↔
          ∀ d ∈ ['\t', '\r', '\x00'], d ∉ raw := by
        refine forall₂_congr fun d hd => ?_
        rw [List.mem_cons, not_or, and_iff_right]
        rintro rfl
        exact hcontrol hd
      rw [hself, List.singleton_append, List.cons_inj_right, ih, hraw]
  | @escape c d raw value hescape more ih =>
    have hraw : (∀ e ∈ ['\t', '\r', '\x00'], e ∉ '\\' :: c :: raw) ↔
        ∀ e ∈ ['\t', '\r', '\x00'], e ∉ raw := by
      refine forall₂_congr fun e he => ?_
      have hslash : e ≠ '\\' := by
        rintro rfl
        exact absurd he (by decide)
      have hc : e ≠ c := by
        rintro rfl
        exact hescape.notMem_controls (List.mem_cons_of_mem _ he)
      simp [hslash, hc]
    have hpairs : (∀ e ∈ c :: Quoted.escapePairs raw, ∃ d, Escape q e d) ↔
        ∀ e ∈ Quoted.escapePairs raw, ∃ d, Escape q e d := by
      rw [List.forall_mem_cons, and_iff_right ⟨d, hescape⟩]
    rw [Quoted.encodeBody_cons, hescape.escape_eq, List.cons_append, List.singleton_append,
      List.cons_inj_right, List.cons_inj_right, ih, hraw, Quoted.escapePairs, hpairs]
  | @verbatim c raw value hescape hfeed more ih =>
    -- Quoting doubles the backslash, so the body would have to go on with one.
    rw [Quoted.encodeBody_cons, (Escape.backslash (q := q)).escape_eq]
    constructor
    · intro heq
      obtain rfl : '\\' = c := (List.cons.inj (List.cons.inj heq).2).1
      exact absurd .backslash (hescape '\\')
    · rintro ⟨-, hpairs⟩
      obtain ⟨d, hd⟩ := hpairs c List.mem_cons_self
      exact absurd hd (hescape d)

/-! ## Quoting and lexing -/

/-- A text whose first character is the delimiter of the style and that is spelled as a string is a
written body between two of these delimiters. -/
theorem Spells.exists_body {value : String} {text rest : List Char}
    (h : Spells (.token (.string value)) text rest) (hhead : text.head? = some q.delimiter) :
    ∃ raw, text = q.delimiter :: (raw ++ [q.delimiter]) ∧ Body q raw value.toList := by
  generalize hrole : Piece.Role.token (.string value) = role at h
  cases h with
  | @string q' value' raw _ hbody =>
    cases hrole
    obtain rfl : q' = q := QuoteStyle.delimiter_injective (Option.some.inj hhead)
    exact ⟨raw, rfl, hbody⟩
  | _ => cases hrole

/-- Quoting and lexing are inverse.  What is quoted is lexed as the one string that was quoted, and
the quoted text has no control character that could be escaped.  A text that is lexed as one string
is what quoting writes for that string exactly if it has none of these either, and an escape
wherever a backslash announces one. -/
theorem quote_lex_inverse (q : QuoteStyle) (value : String) :
    (lex (Quoted.encode q value) =
        .ok (Token.alone (.string value) (Quoted.encode q value)) ∧
      ∀ c ∈ ['\n', '\t', '\r', '\x00'], c ∉ (Quoted.encode q value).toList) ∧
    ∀ (text : String) (span : Span) (eof : Token),
      lex text = .ok [⟨.string value, span⟩, eof] → span.start = 0 →
      span.stop = text.utf8ByteSize → text.toList.head? = some q.delimiter →
      ∃ body, text.toList = q.delimiter :: (body ++ [q.delimiter]) ∧
        (Quoted.encode q value = text ↔
          (∀ c ∈ ['\t', '\r', '\x00'], c ∉ body) ∧
            ∀ c ∈ Quoted.escapePairs body, c ∈ ['n', 't', 'r', '0', '\\', q.delimiter]) := by
  refine ⟨⟨(spells_encode q value []).lex_eq_alone, ?_⟩, ?_⟩
  · intro c hc
    have hdelimiter : c ≠ q.delimiter := by
      rintro rfl
      cases q <;> exact absurd hc (by decide)
    have hbody := Quoted.notMem_encodeBody q value.toList hc
    rw [Quoted.encode, String.toList_ofList]
    simp [hdelimiter, hbody]
  · intro text span eof hlex hstart hstop hhead
    have hspells := spells_of_lex_eq hlex hstart hstop
    obtain ⟨raw, htext, hbody⟩ := hspells.exists_body hhead
    refine ⟨raw, htext, ?_⟩
    have hencode : Quoted.encode q value = text ↔ Quoted.encodeBody q value.toList = raw := by
      rw [← String.toList_inj, htext, Quoted.encode, String.toList_ofList, List.cons_append,
        List.cons_inj_right, List.append_left_inj]
    rw [hencode, hbody.encodeBody_eq_iff]
    simp only [exists_escape_iff]

/-- A string with an escape that there is none of, the other quote and a tab in it: quoting writes
it otherwise. -/
theorem quote_lex_inverse_kept_backslash :
    ∃ span eof, lex "'\\d\"ü\t'" = .ok [⟨.string "\\d\"ü\t", span⟩, eof] ∧ span.start = 0 ∧
      span.stop = "'\\d\"ü\t'".utf8ByteSize ∧
      "'\\d\"ü\t'".toList.head? = some QuoteStyle.single.delimiter ∧
      ∃ body, "'\\d\"ü\t'".toList =
          QuoteStyle.single.delimiter :: (body ++ [QuoteStyle.single.delimiter]) ∧
        (Quoted.encode .single "\\d\"ü\t" = "'\\d\"ü\t'" ↔
          (∀ c ∈ ['\t', '\r', '\x00'], c ∉ body) ∧
            ∀ c ∈ Quoted.escapePairs body,
              c ∈ ['n', 't', 'r', '0', '\\', QuoteStyle.single.delimiter]) := by
  have hlex : lex "'\\d\"ü\t'" =
      .ok [⟨.string "\\d\"ü\t", ⟨0, 8, 1, 1⟩⟩, ⟨.eof, ⟨8, 8, 1, 8⟩⟩] := by
    decide +kernel
  exact ⟨_, _, hlex, rfl, by decide +kernel, by decide +kernel,
    (quote_lex_inverse .single "\\d\"ü\t").2 "'\\d\"ü\t'" _ _ hlex rfl (by decide +kernel)
      (by decide +kernel)⟩

end DeclLang
