import DeclLang.Proofs.Decimal
import DeclLang.Proofs.Grammar.Place
import DeclLang.Proofs.Report.Scan
import DeclLang.Report

/-!
# Reports show their source text

Whatever is wrong with a source text, the report on it shows lines of the text: the label of every
error that is given of a text lies in the text (`SyntaxError.IsGiven.exists_stretch`), so the scan
for its window does not run out of text, and no report has the line that stands for a snippet that
could not be read (`report_shows_source`).

That line is told from all others of a report by its first character that is no space
(`firstMark`).
-/

namespace DeclLang

/-! ## The errors of a source text -/

/-- The errors that are given of a source text: its first problem, each of all its errors, and each
of its lexical errors. -/
inductive SyntaxError.IsGiven (source : String) : SyntaxError → Prop where
  | first {e : SyntaxError} (h : parse source = .error e) : IsGiven source e
  | all {errors : List SyntaxError} {e : SyntaxError} (h : parseAll source = .error errors)
      (he : e ∈ errors) : IsGiven source e
  | lexical {errors : List LexicalError} {e : LexicalError} (h : lexAll source = .error errors)
      (he : e ∈ errors) : IsGiven source (.lexical e)

/-- Every error that is given of a source text is one of a lexeme. -/
theorem SyntaxError.IsGiven.liesIn {source : String} {e : SyntaxError} (h : e.IsGiven source) :
    e.LiesIn (Lexeme.ofString source) := by
  cases h with
  | first h =>
    rw [← Feed.lexemes_ofString]
    exact (Feed.problem_cut (Feed.parse_eq_error_iff.1 h)).liesIn
  | all h he =>
    rw [← Feed.lexemes_ofString]
    exact Feed.errors_liesIn (Feed.mem_errors_of_parseAll h he)
  | lexical h he =>
    rw [← (lexAll_eq_error_iff.1 h).2] at he
    obtain ⟨lexeme, hmem, hlexeme⟩ := List.mem_filterMap.1 he
    refine ⟨lexeme, hmem, Lexeme.span_of_syntaxError? ?_⟩
    rw [Lexeme.syntaxError?, hlexeme]
    rfl

/-- What is no trivia does not begin with a line feed. -/
theorem Spells.head?_ne_lineFeed {role : Piece.Role} {text rest : List Char}
    (h : Spells role text rest) (hrole : role ≠ .trivia) :
    (text ++ rest).head? ≠ some '\n' := by
  intro hhead
  obtain ⟨cs, hcs⟩ := List.head?_eq_some_iff.1 hhead
  have hnext := h.next_eq hcs
  have hblank : Piece.next '\n' cs = (⟨.trivia, ['\n']⟩, cs) := rfl
  rw [hblank] at hnext
  cases hnext
  exact hrole rfl

theorem Lexeme.role_ne_trivia (lexeme : Lexeme) : lexeme.role ≠ .trivia := by
  cases lexeme <;> nofun

/-- The text that an error is about: the label covers a stretch of the source text, and no line feed
comes first in it, or right behind where it is empty. -/
theorem SyntaxError.IsGiven.exists_stretch {source : String} {e : SyntaxError}
    (h : e.IsGiven source) :
    ∃ before text rest, source.toList = before ++ (text ++ rest) ∧
      e.label.offset = byteWidth before ∧ e.label.length = byteWidth text ∧
      (text ++ rest).head? ≠ some '\n' := by
  obtain ⟨lexeme, hmem, hspan⟩ := h.liesIn
  have hreading : IsReading source (Lexeme.ofString source) := isReading_iff.2 rfl
  obtain ⟨init, eof, hlexemes, -, hstart, hstop, hinit⟩ := hreading.coversSource
  rw [label, ← hspan]
  rw [hlexemes, List.mem_append, List.mem_singleton] at hmem
  rcases hmem with hmem | rfl
  · obtain ⟨before, text, rest, hsource, -, hfirst, hlast, hspells⟩ := hinit lexeme hmem
    refine ⟨before, text, rest, by rw [hsource, List.append_assoc], hfirst, ?_,
      hspells.head?_ne_lineFeed lexeme.role_ne_trivia⟩
    rw [Span.length, hfirst, hlast, byteWidth_append, Nat.add_sub_cancel_left]
  · refine ⟨source.toList, [], [], by simp, ?_, ?_, by simp⟩
    · rwa [byteWidth_toList]
    · simp only [Lexeme.span, Span.length, hstart, hstop, Nat.sub_self, byteWidth_nil]

theorem SyntaxError.IsGiven.label_le {source : String} {e : SyntaxError} (h : e.IsGiven source) :
    e.label.offset + e.label.length ≤ byteWidth source.toList := by
  obtain ⟨before, text, rest, hsource, hoffset, hlength, -⟩ := h.exists_stretch
  rw [hsource, byteWidth_append, byteWidth_append, hoffset, hlength]
  omega

/-! ## The first character of a line -/

/-- The first character of a line that is no space. -/
def firstMark (line : String) : Option Char := (line.toList.dropWhile (· == ' ')).head?

theorem firstMark_space (line : String) : firstMark (" " ++ line) = firstMark line := by
  rw [firstMark, String.toList_append]
  rfl

theorem firstMark_spaces (count : Nat) (line : String) :
    firstMark (Align.spaces count ++ line) = firstMark line := by
  have hspaces : ∀ c ∈ List.replicate count ' ', (c == ' ') = true :=
    List.forall_mem_replicate.2 (.inr rfl)
  rw [firstMark, String.toList_append, Align.spaces, String.toList_ofList,
    List.dropWhile_append_of_pos hspaces]
  rfl

/-- What comes behind the first mark of a line does not matter to it. -/
theorem firstMark_append {start : String} {c : Char} (h : firstMark start = some c)
    (line : String) : firstMark (start ++ line) = some c := by
  obtain ⟨cs, hcs⟩ := List.head?_eq_some_iff.1 h
  rw [firstMark, String.toList_append, List.dropWhile_append, hcs]
  rfl

theorem exists_firstMark_toString (n : Nat) :
    ∃ c, firstMark (toString n) = some c ∧ c.isDigit = true := by
  obtain ⟨c, cs, hcs, hdigits⟩ := Decimal.isNumber_toDigits n
  have htoList : (toString n).toList = c :: cs := by
    rw [← hcs]
    simp [toString, Nat.repr]
  have hc := hdigits c List.mem_cons_self
  have hspace : ¬ (c == ' ') = true := by
    intro hspace
    rw [eq_of_beq hspace] at hc
    exact absurd hc (by decide)
  refine ⟨c, ?_, hc⟩
  rw [firstMark, htoList, List.dropWhile_cons, if_neg hspace]
  rfl

/-! ## The lines of a report -/

theorem firstMark_of_mem_unavailable {label : Label} {line : String}
    (h : line ∈ Snippet.unavailable label) : firstMark line = some '[' := by
  obtain rfl := List.mem_singleton.1 h
  simp only [String.append_assoc]
  exact firstMark_append rfl _

/-- A line of source text begins with its number, and what is drawn below it with a dot. -/
theorem SnippetLine.firstMark_of_mem_draw {label : Label} {numberWidth : Nat} {bracketed : Bool}
    {l : SnippetLine} {line : String} (h : line ∈ draw label numberWidth bracketed l) :
    firstMark line ≠ some '[' := by
  have hbelow : ∀ text,
      firstMark (" " ++ Align.spaces numberWidth ++ " · " ++ text) ≠ some '[' := by
    intro text
    simp only [String.append_assoc, firstMark_space, firstMark_spaces]
    rw [firstMark_append (c := '·') rfl]
    decide
  unfold draw at h
  dsimp only at h
  rcases List.mem_cons.1 h with rfl | h
  · obtain ⟨c, hc, hdigit⟩ := exists_firstMark_toString l.number
    simp only [String.append_assoc, Align.right, firstMark_space, firstMark_spaces]
    rw [firstMark_append hc]
    rintro ⟨⟩
    exact absurd hdigit (by decide)
  · split at h
    · obtain ⟨text, -, rfl⟩ := List.mem_map.1 h
      rw [String.append_assoc]
      exact hbelow _
    · split at h
      · obtain rfl := List.mem_singleton.1 h
        rw [String.append_assoc]
        exact hbelow _
      · cases h

theorem Snippet.firstMark_of_mem_lines {label : Label} {text : List Char} {window place : Window}
    (hwindow : Window.around? label 1 1 text = some window)
    (hplace : Window.around? label 0 0 text = some place) {fileName line : String}
    (h : line ∈ lines fileName label text) : firstMark line ≠ some '[' := by
  unfold lines at h
  rw [hwindow, hplace] at h
  dsimp only at h
  rw [List.cons_append, List.mem_cons, List.mem_append, List.mem_singleton, List.mem_flatMap] at h
  rcases h with rfl | ⟨l, -, h⟩ | rfl
  · simp only [String.append_assoc, firstMark_spaces]
    rw [firstMark_append (c := '╭') rfl]
    decide
  · exact SnippetLine.firstMark_of_mem_draw h
  · rw [firstMark_spaces]
    decide

theorem SyntaxError.firstMark_code (e : SyntaxError) : firstMark e.code = some 's' := by
  rcases e with ⟨fault, span⟩ | e
  · cases fault <;> simp [code, LexicalFault.code, firstMark]
  · cases e <;> simp [code, GrammarError.code, firstMark]

/-- Only the lines of the snippet could be one that stands for a snippet. -/
theorem SyntaxError.firstMark_of_mem_reportLines {source : String} {e : SyntaxError}
    {window place : Window} (hwindow : Window.around? e.label 1 1 source.toList = some window)
    (hplace : Window.around? e.label 0 0 source.toList = some place) {fileName line : String}
    (h : line ∈ e.reportLines fileName source) : firstMark line ≠ some '[' := by
  unfold reportLines at h
  rw [List.mem_append, List.mem_append, List.mem_cons, List.mem_cons, List.mem_singleton] at h
  rcases h with ((rfl | rfl | rfl) | h) | h
  · rw [e.firstMark_code]
    decide
  · decide
  · rw [firstMark_append (c := '×') rfl]
    decide
  · exact Snippet.firstMark_of_mem_lines hwindow hplace h
  · obtain ⟨help, -, rfl⟩ := List.mem_map.1 h
    rw [firstMark_append (c := 'h') rfl]
    decide

/-! ## The label of an error -/

/-- The label of every error that is given of a source text lies in the text, and both of its ends
are between two characters; its lines can be read with one line of context; and so no line of the
report is one that stands for a snippet that could not be read. -/
theorem report_shows_source {source : String} {e : SyntaxError} (h : e.IsGiven source) :
    e.label.offset + e.label.length ≤ source.utf8ByteSize ∧
    String.Pos.Raw.IsValid source ⟨e.label.offset⟩ ∧
    String.Pos.Raw.IsValid source ⟨e.label.offset + e.label.length⟩ ∧
    (∃ window, Window.around? e.label 1 1 source.toList = some window) ∧
    ∀ fileName, ∀ line ∈ e.reportLines fileName source, ∀ label,
      line ∉ Snippet.unavailable label := by
  obtain ⟨before, text, rest, hsource, hoffset, hlength, -⟩ := h.exists_stretch
  have hend : e.label.offset + e.label.length = byteWidth (before ++ text) := by
    rw [hoffset, hlength, byteWidth_append]
  obtain ⟨window, hwindow⟩ := Window.exists_around? h.label_le 1 1
  obtain ⟨place, hplace⟩ := Window.exists_around? h.label_le 0 0
  refine ⟨?_, ?_, ?_, ⟨window, hwindow⟩, ?_⟩
  · have hle := h.label_le
    rwa [byteWidth, String.ofList_toList] at hle
  · rw [hoffset]
    exact isValid_of_toList hsource
  · rw [hend]
    exact isValid_of_toList (hsource.trans (List.append_assoc ..).symm)
  · intro fileName line hline label hunavailable
    exact SyntaxError.firstMark_of_mem_reportLines hwindow hplace hline
      (firstMark_of_mem_unavailable hunavailable)

/-- The second of two errors behind a byte order mark: its label is two lines long and ends with the
text. -/
theorem report_shows_source_open_comment :
    SyntaxError.IsGiven "\uFEFF@\r\nfunc f = /* ö\n"
      (.lexical ⟨.unterminatedComment, ⟨15, 21, 2, 10⟩⟩) ∧
    15 + 6 ≤ "\uFEFF@\r\nfunc f = /* ö\n".utf8ByteSize ∧
    ∀ fileName, ∀ line ∈ (SyntaxError.lexical ⟨.unterminatedComment, ⟨15, 21, 2, 10⟩⟩).reportLines
      fileName "\uFEFF@\r\nfunc f = /* ö\n", ∀ label, line ∉ Snippet.unavailable label := by
  have hall : lexAll "\uFEFF@\r\nfunc f = /* ö\n" =
      .error [⟨.unexpectedChar '@', 3, 4, 1, 1⟩, ⟨.unterminatedComment, 15, 21, 2, 10⟩] := by
    decide +kernel
  have hgiven := SyntaxError.IsGiven.lexical hall (List.mem_cons_of_mem _ List.mem_cons_self)
  obtain ⟨hfits, -, -, -, hlines⟩ := report_shows_source hgiven
  exact ⟨hgiven, hfits, hlines⟩

end DeclLang
