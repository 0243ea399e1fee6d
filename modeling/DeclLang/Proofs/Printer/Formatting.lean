import DeclLang.Formatting
import DeclLang.Proofs.Printer.RoundTrip

/-!
# Formatted text is a canonical form

Formatting reads a tree and prints it.  What a text loses by it is what its tree does not hold, that
is the spans, the comments, and the way in which each token was written.  Two facts carry the
module.

* Printing sees no spans, so trees of the same structure have the same canonical text
  (`SourceFile.canonical_congr`).
* A tree that was read from a text can be read back once it is printed, in whatever style, and has
  its structure then (`exists_parse_canonical`).

So formatting in one style and then in another is formatting in the other at once
(`format_canonical`), and texts have the same formatted text only if their trees have the same
structure (`canonical_eq_iff`).  `formatted_text_canonical` puts these together.
-/

namespace DeclLang

/-! ## Printing sees no spans -/

theorem Canonical.separator_eq (style : Style) (file : SourceFile) :
    separator style file =
      if style.blankLineAfterImports && !file.importPaths.isEmpty &&
        !file.declarationNodes.isEmpty then [""] else [] := by
  simp [separator, SourceFile.importPaths, SourceFile.declarationNodes]

/-- Trees of the same structure have the same canonical text. -/
theorem SourceFile.canonical_congr {a b : SourceFile} (h : a.sameStructure b) (style : Style) :
    a.canonical style = b.canonical style := by
  obtain ⟨hpaths, hnodes⟩ := sameStructure_iff.1 h
  simp only [canonical, Canonical.lines, Canonical.separator_eq, hpaths, hnodes]

/-! ## What was read can be read back -/

/-- A text with the tokens of a tree, whatever trivia lies between them, makes that tree. -/
theorem exists_parse_of_kinds {source : String} {file : SourceFile}
    (hfile : ∀ d ∈ file.declarationNodes, d.IsReadable)
    (hroles : lexemeRoles source.toList = (Canonical.kinds file).map .token) :
    ∃ again, parse source = .ok again ∧ again.sameStructure file := by
  obtain ⟨tokens, hkinds, hparse⟩ := parse_of_roles hroles (Canonical.eof_notMem_kinds file)
  obtain ⟨again, hderives, hsame⟩ := Canonical.exists_derives hfile hkinds
  exact ⟨again, (hparse again).2 hderives, hsame⟩

/-- The canonical text of a tree that was read makes a tree of the same structure. -/
theorem exists_parse_canonical {source : String} {file : SourceFile} (h : parse source = .ok file)
    (style : Style) :
    ∃ again, parse (file.canonical style) = .ok again ∧ again.sameStructure file := by
  have hfile := isReadable_of_parse h
  exact exists_parse_of_kinds hfile (Canonical.lexemeRoles_canonical hfile)

/-! ## Formatting -/

section Format

variable {source other : String} {file otherFile : SourceFile}

theorem format_eq_ok (h : parse source = .ok file) (style : Style) :
    format style source = .ok (file.canonical style) := by
  rw [format, h]
  rfl

/-- Formatting canonical text of whatever style is printing its tree. -/
theorem format_canonical (h : parse source = .ok file) (style newStyle : Style) :
    format newStyle (file.canonical style) = .ok (file.canonical newStyle) := by
  obtain ⟨again, hparse, hsame⟩ := exists_parse_canonical h style
  rw [format_eq_ok hparse, SourceFile.canonical_congr hsame]

/-- The canonical text tells the structure of a tree that was read. -/
theorem canonical_eq_iff (h : parse source = .ok file) (hother : parse other = .ok otherFile)
    (style : Style) :
    file.canonical style = otherFile.canonical style ↔ file.sameStructure otherFile := by
  constructor
  · intro heq
    obtain ⟨again, hparse, hsame⟩ := exists_parse_canonical h style
    obtain ⟨again', hparse', hsame'⟩ := exists_parse_canonical hother style
    rw [heq, hparse'] at hparse
    obtain rfl := Except.ok.inj hparse
    rw [SourceFile.sameStructure_iff] at hsame hsame' ⊢
    exact ⟨hsame.1.symm.trans hsame'.1, hsame.2.symm.trans hsame'.2⟩
  · intro hsame
    exact SourceFile.canonical_congr hsame style

end Format

/-- Formatted text is a canonical form.  Every text that can be read can be formatted in any style,
and then formatting it anew in the same style changes nothing, of which the check and the
differences tell too, while formatting it in another style is formatting the first text in that
one.  And texts that can be read have the same formatted text exactly if their trees have the same
structure. -/
theorem formatted_text_canonical :
    (∀ source file, parse source = .ok file →
      (∀ style, ∃ text, format style source = .ok text ∧ format style text = .ok text ∧
        formatDiff style text = .ok none ∧
        ∀ newStyle, format newStyle text = format newStyle source) ∧
      ∃ text, format {} source = .ok text ∧ isFormatted text = .ok true) ∧
    ∀ source other file otherFile, parse source = .ok file → parse other = .ok otherFile →
      ∀ style, format style source = format style other ↔ file.sameStructure otherFile := by
  constructor
  · intro source file h
    constructor
    · intro style
      have hagain := format_canonical h style style
      refine ⟨file.canonical style, format_eq_ok h style, hagain, ?_, ?_⟩
      · rw [formatDiff, hagain]
        simp [Except.map]
      · intro newStyle
        rw [format_canonical h, format_eq_ok h]
    · refine ⟨file.canonical {}, format_eq_ok h {}, ?_⟩
      rw [isFormatted, format_canonical h]
      simp [Except.map]
  · intro source other file otherFile h hother style
    rw [format_eq_ok h, format_eq_ok hother, Except.ok.injEq, canonical_eq_iff h hother]

/-- A text with a byte order mark, a comment, single quotes, a backslash before a character without
an escape and zeros before a number, and the canonical text of its tree. -/
theorem formatted_text_canonical_escape_kept :
    ∃ file otherFile, parse "\uFEFF/* é */import 'a\\q\"'\r\nvar x = 007" = .ok file ∧
      parse "import \"a\\\\q\\\"\"\n\nvar x = 7\n" = .ok otherFile ∧
      (∃ text, format {} "\uFEFF/* é */import 'a\\q\"'\r\nvar x = 007" = .ok text ∧
        isFormatted text = .ok true) ∧
      format {} "\uFEFF/* é */import 'a\\q\"'\r\nvar x = 007" =
        format {} "import \"a\\\\q\\\"\"\n\nvar x = 7\n" := by
  have hmixed : parse "\uFEFF/* é */import 'a\\q\"'\r\nvar x = 007" =
      .ok ⟨[⟨"a\\q\"", 18, 24, 1, 15⟩], [⟨⟨.var, "x", .integer 7⟩, 26, 37, 2, 1⟩]⟩ := by
    decide +kernel
  have hplain : parse "import \"a\\\\q\\\"\"\n\nvar x = 7\n" =
      .ok ⟨[⟨"a\\q\"", 7, 15, 1, 8⟩], [⟨⟨.var, "x", .integer 7⟩, 17, 26, 3, 1⟩]⟩ := by
    decide +kernel
  refine ⟨_, _, hmixed, hplain, (formatted_text_canonical.1 _ _ hmixed).2, ?_⟩
  rw [formatted_text_canonical.2 _ _ _ _ hmixed hplain]
  decide +kernel

end DeclLang
