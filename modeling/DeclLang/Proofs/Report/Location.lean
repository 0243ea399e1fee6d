import DeclLang.Proofs.Report.Extent

/-!
# Where a report says that an error is

The header of a report names a line and a column, and so does the span of the error that it is
about.  The two are counted by different rules.  The span counts the line feeds of the text and the
characters behind the last of them, without a byte order mark at the beginning of the text.  The
report counts every line end, a carriage return that stands alone included, and the bytes behind the
last of them (`reportLineAt`, `reportColumnAt`).

So they agree exactly if the rules do not differ on the text before the error
(`report_location_iff`): no carriage return in it stands alone, and the characters on the line of
the error take one byte each (`PlainBefore`).  `report_location_wide` is a text on which they
differ.
-/

namespace DeclLang

/-! ## Counting as reports do -/

/-- The line that a report names for the place behind the first `offset` bytes of a source text: one
more than the number of line feeds before it, and of carriage returns with no line feed behind
them. -/
def reportLineAt (source : String) (offset : Nat) : Nat :=
  1 + ((charsWithin offset source.toList).count '\n' +
    Window.loneReturns (charsWithin offset source.toList))

/-- The column that a report names for the place behind the first `offset` bytes of a source text:
one more than the number of bytes before it that are behind the last line feed or carriage
return. -/
def reportColumnAt (source : String) (offset : Nat) : Nat :=
  1 + byteWidth ((charsWithin offset source.toList).rtakeWhile fun c => !Window.endsLine c)

/-- Before the place no carriage return stands alone, and the characters on its line, be they a byte
order mark, take one byte each. -/
def PlainBefore (source : String) (offset : Nat) : Prop :=
  Window.loneReturns (charsWithin offset source.toList) = 0 ∧
    ∀ c ∈ (charsWithin offset source.toList).rtakeWhile (· != '\n'), c.utf8Size = 1

/-! ## Where the two ways of counting agree -/

/-- If no carriage return stands alone, each has a line feed behind it. -/
theorem Window.head?_of_loneReturns {cs before after : List Char} (h : loneReturns cs = 0)
    (hcs : cs = before ++ '\r' :: after) : after.head? = some '\n' := by
  fun_induction loneReturns cs generalizing before with
  | case1 => simp at hcs
  | case2 cs ih =>
    rcases before with _ | ⟨b, _ | ⟨d, before⟩⟩
    · obtain ⟨-, rfl⟩ := List.cons.inj hcs
      rfl
    · obtain ⟨-, hfeed⟩ := List.cons.inj hcs
      exact absurd (List.cons.inj hfeed).1 (by decide)
    · obtain ⟨-, hmore⟩ := List.cons.inj hcs
      exact ih h (List.cons.inj hmore).2
  | case3 c cs _ ih =>
    cases before with
    | nil =>
      obtain ⟨rfl, -⟩ := List.cons.inj hcs
      rw [if_pos rfl] at h
      omega
    | cons b before => exact ih (by omega) (List.cons.inj hcs).2

/-- Two classes of characters that agree on the end of a text have the same end of it. -/
theorem rtakeWhile_eq_of_forall_mem {p q : Char → Bool} {cs : List Char}
    (hp : ∀ c ∈ cs.rtakeWhile q, p c = true) (hq : ∀ c, p c = true → q c = true) :
    cs.rtakeWhile p = cs.rtakeWhile q := by
  induction cs using List.reverseRecOn with
  | nil => rfl
  | append_singleton cs c ih =>
    by_cases hc : q c = true
    · rw [List.rtakeWhile_concat_pos _ _ _ hc, List.forall_mem_append] at hp
      rw [List.rtakeWhile_concat_pos _ _ _ hc,
        List.rtakeWhile_concat_pos _ _ _ (hp.2 c List.mem_cons_self), ih hp.1]
    · rw [List.rtakeWhile_concat_neg _ _ _ hc,
        List.rtakeWhile_concat_neg _ _ _ fun hpc => hc (hq c hpc)]

/-- If no carriage return stands alone, the last line of a text is what is behind its last line
feed. -/
theorem Window.rtakeWhile_endsLine {cs : List Char} (h : loneReturns cs = 0) :
    cs.rtakeWhile (fun c => !endsLine c) = cs.rtakeWhile (· != '\n') := by
  refine rtakeWhile_eq_of_forall_mem ?_ ?_
  · intro c hc
    have hfeed := List.mem_rtakeWhile_imp hc
    have hreturn : c ≠ '\r' := by
      rintro rfl
      obtain ⟨start, after, hline⟩ := List.append_of_mem hc
      obtain ⟨before, hcs⟩ := List.rtakeWhile_suffix (· != '\n') cs
      rw [hline, ← List.append_assoc] at hcs
      have hhead := head?_of_loneReturns h hcs.symm
      have hmem : '\n' ∈ cs.rtakeWhile (· != '\n') := by
        rw [hline]
        exact List.mem_append_right _ (List.mem_cons_of_mem _ (List.mem_of_mem_head? hhead))
      exact absurd (List.mem_rtakeWhile_imp hmem) (by decide)
    simpa [endsLine, hreturn] using hfeed
  · intro c hc
    simp only [endsLine, Bool.not_eq_true', Bool.or_eq_false_iff] at hc
    simpa using hc.2

theorem byteWidth_eq_length_iff {cs : List Char} :
    byteWidth cs = cs.length ↔ ∀ c ∈ cs, c.utf8Size = 1 := by
  constructor
  · intro h
    induction cs with
    | nil => nofun
    | cons c cs ih =>
      have hc := c.utf8Size_pos
      have hcs := length_le_byteWidth cs
      rw [byteWidth_cons, List.length_cons] at h
      rw [List.forall_mem_cons]
      exact ⟨by omega, ih (by omega)⟩
  · exact byteWidth_of_narrow

/-- A character before a text is part of the last line, or does not change it. -/
theorem rtakeWhile_cons_cases {p : Char → Bool} {c : Char} (hc : p c = true) (cs : List Char) :
    (c :: cs).rtakeWhile p = c :: cs.rtakeWhile p ∨ (c :: cs).rtakeWhile p = cs.rtakeWhile p := by
  induction cs using List.reverseRecOn with
  | nil =>
    left
    exact List.rtakeWhile_concat_pos p [] c hc
  | append_singleton cs d ih =>
    rw [← List.cons_append]
    by_cases hd : p d = true
    · rw [List.rtakeWhile_concat_pos _ _ _ hd, List.rtakeWhile_concat_pos _ _ _ hd,
        ← List.cons_append]
      exact ih.imp (congrArg (· ++ [d])) (congrArg (· ++ [d]))
    · rw [List.rtakeWhile_concat_neg _ _ _ hd, List.rtakeWhile_concat_neg _ _ _ hd]
      exact .inr rfl

/-- A column of characters is one of bytes exactly if all characters before it on its line take one
byte.  A byte order mark counts as none for the one and as three for the other. -/
theorem byteWidth_eq_length_withoutMark_iff (cs : List Char) :
    byteWidth (cs.rtakeWhile (· != '\n')) = ((withoutMark cs).rtakeWhile (· != '\n')).length ↔
      ∀ c ∈ cs.rtakeWhile (· != '\n'), c.utf8Size = 1 := by
  unfold withoutMark
  split
  · next cs =>
    rcases @rtakeWhile_cons_cases (· != '\n') '\uFEFF' (by decide) cs with hline | hline
    · have hle := length_le_byteWidth (cs.rtakeWhile (· != '\n'))
      have hmark : '\uFEFF'.utf8Size = 3 := rfl
      rw [hline, byteWidth_cons, List.forall_mem_cons, hmark]
      omega
    · rw [hline]
      exact byteWidth_eq_length_iff
  · exact byteWidth_eq_length_iff

/-- The two ways of counting agree on a place exactly if the text before it is plain. -/
theorem reportAt_eq_iff (source : String) (offset : Nat) :
    reportLineAt source offset = lineAt source offset ∧
      reportColumnAt source offset = columnAt source offset ↔ PlainBefore source offset := by
  unfold reportLineAt lineAt reportColumnAt columnAt PlainBefore
  generalize charsWithin offset source.toList = before
  constructor
  · rintro ⟨hline, hcolumn⟩
    have hlone : Window.loneReturns before = 0 := by omega
    rw [Window.rtakeWhile_endsLine hlone, Nat.add_left_cancel_iff,
      byteWidth_eq_length_withoutMark_iff] at hcolumn
    exact ⟨hlone, hcolumn⟩
  · rintro ⟨hlone, hplain⟩
    rw [← byteWidth_eq_length_withoutMark_iff] at hplain
    rw [Window.rtakeWhile_endsLine hlone, hplain, hlone]
    exact ⟨rfl, rfl⟩

/-! ## The header of a report -/

theorem SyntaxError.IsGiven.isPlaced {source : String} {e : SyntaxError} (h : e.IsGiven source) :
    e.span.IsPlaced source := by
  obtain ⟨lexeme, hmem, hspan⟩ := h.liesIn
  rw [← hspan]
  exact isPlaced_of_mem_ofString hmem

/-- What the scan for the place of an error counts. -/
theorem SyntaxError.IsGiven.exists_place {source : String} {e : SyntaxError}
    (h : e.IsGiven source) :
    ∃ place, Window.around? e.label 0 0 source.toList = some place ∧
      place.line + 1 = reportLineAt source e.span.start ∧
      place.column + 1 = reportColumnAt source e.span.start := by
  obtain ⟨before, text, rest, hsource, hoffset, hlength, hhead⟩ := h.exists_stretch
  have hfits : e.label.length ≤ byteWidth (text ++ rest) := by
    rw [hlength, byteWidth_append]
    exact Nat.le_add_right _ _
  have hbefore : charsWithin e.span.start source.toList = before := by
    rw [hsource, show e.span.start = byteWidth before from hoffset, charsWithin_byteWidth]
  obtain ⟨place, hplace, hline, hcolumn⟩ := Window.exists_around?_place hoffset hfits hhead
  refine ⟨place, by rw [hsource, hplace], ?_, ?_⟩
  · rw [reportLineAt, hbefore, hline, Nat.add_comm]
  · rw [reportColumnAt, hbefore, hcolumn, Nat.add_comm]

/-- A snippet begins with a header that names the file and the place. -/
theorem Snippet.exists_header {label : Label} {text : List Char} {window place : Window}
    (hwindow : Window.around? label 1 1 text = some window)
    (hplace : Window.around? label 0 0 text = some place) (fileName : String) :
    ∃ margin more, lines fileName label text =
      (Align.spaces margin ++ "╭─[" ++ location fileName place ++ "]") :: more := by
  rw [lines, hwindow, hplace]
  exact ⟨_, _, rfl⟩

/-- The header of the report on an error that is given of a source text names the line and the
column that counting as reports do gives for the place where the error starts.  They are the line
and the column of the span of the error exactly if the text before the error is plain. -/
theorem report_location_iff {source : String} {e : SyntaxError} (h : e.IsGiven source)
    (fileName : String) :
    ∃ margin line column more,
      e.reportLines fileName source = e.code :: "" :: ("  × " ++ e.message) ::
        (Align.spaces margin ++ "╭─[" ++
          (fileName ++ ":" ++ toString line ++ ":" ++ toString column) ++ "]") :: more ∧
      line = reportLineAt source e.span.start ∧ column = reportColumnAt source e.span.start ∧
      (line = e.span.line ∧ column = e.span.column ↔ PlainBefore source e.span.start) := by
  obtain ⟨place, hplace, hline, hcolumn⟩ := h.exists_place
  obtain ⟨window, hwindow⟩ := Window.exists_around? h.label_le 1 1
  obtain ⟨margin, more, hheader⟩ := Snippet.exists_header hwindow hplace fileName
  refine ⟨margin, place.line + 1, place.column + 1, more ++ e.help?.toList.map ("  help: " ++ ·),
    ?_, hline, hcolumn, ?_⟩
  · rw [SyntaxError.reportLines, hheader]
    rfl
  · rw [hline, hcolumn, h.isPlaced.1, h.isPlaced.2, reportAt_eq_iff]

/-- A character of two bytes on an earlier line does not change the place that the report names. -/
theorem report_location_iff_accent_above :
    SyntaxError.IsGiven "// é\r\nvar @" (.lexical ⟨.unexpectedChar '@', ⟨11, 12, 2, 5⟩⟩) ∧
    PlainBefore "// é\r\nvar @" 11 ∧
    ∃ margin more, (SyntaxError.lexical ⟨.unexpectedChar '@', ⟨11, 12, 2, 5⟩⟩).reportLines
      "a.sap" "// é\r\nvar @" =
        "sapling::lex::unexpected_char" :: "" :: "  × unexpected character '@'" ::
          (Align.spaces margin ++ "╭─[" ++ "a.sap:2:5" ++ "]") :: more := by
  have hgiven : SyntaxError.IsGiven "// é\r\nvar @"
      (.lexical ⟨.unexpectedChar '@', ⟨11, 12, 2, 5⟩⟩) := .first (by decide +kernel)
  have hplain : PlainBefore "// é\r\nvar @" 11 :=
    ⟨by decide +kernel, byteWidth_eq_length_iff.1 (by decide +kernel)⟩
  obtain ⟨margin, line, column, more, hreport, -, -, hiff⟩ := report_location_iff hgiven "a.sap"
  obtain ⟨rfl, rfl⟩ := hiff.2 hplain
  exact ⟨hgiven, hplain, margin, more, hreport⟩

/-- Behind a character of two bytes the report is one column ahead of the span: the one counts
twelve characters and the other thirteen bytes. -/
theorem report_location_wide :
    parse "var x = 'é' @" = .error (.lexical ⟨.unexpectedChar '@', ⟨13, 14, 1, 13⟩⟩) ∧
    (SyntaxError.reportLines "a.sap" "var x = 'é' @"
      (.lexical ⟨.unexpectedChar '@', ⟨13, 14, 1, 13⟩⟩))[3]? = some "   ╭─[a.sap:1:14]" := by
  decide +kernel

end DeclLang
