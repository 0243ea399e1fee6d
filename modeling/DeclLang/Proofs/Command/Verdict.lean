import DeclLang.Command.Outcome
import DeclLang.Proofs.Printer.Formatting

/-!
# What is found out about a file

A file that is to be formatted fails, has its canonical form, or differs from it, and each of the
three says all there is to it: what the file reads as and what that is formatted to
(`Verdict.ofFile_cases`).  A file that can be formatted is left with its canonical text, whether or
not it had it before (`FileContent.formatted`), and then it does not differ any more
(`Verdict.not_isDifference_ofFile_formatted`).
-/

namespace DeclLang

/-! ## Reading -/

theorem fromUTF8?_eq_some_iff {data : ByteArray} {text : String} :
    String.fromUTF8? data = some text ↔ data = text.toUTF8 := by
  unfold String.fromUTF8?
  constructor
  · intro h
    split at h
    · rw [← Option.some.inj h]
      rfl
    · cases h
  · rintro rfl
    exact dif_pos text.isValidUTF8

/-- A file reads as a text if it consists of it and is not over the size limit. -/
theorem FileContent.read_eq_ok_iff {content : FileContent} {source : String} :
    content.read = .ok source ↔
      content = .ofText source ∧ source.utf8ByteSize ≤ maxSourceSize := by
  constructor
  · intro h
    cases content with
    | oversized size tooLarge => cases h
    | bytes data =>
      unfold read at h
      dsimp only at h
      split at h
      · cases h
      · next hsize =>
        split at h
        · next text htext =>
          obtain rfl := Except.ok.inj h
          obtain rfl := fromUTF8?_eq_some_iff.1 htext
          exact ⟨rfl, Nat.le_of_not_lt hsize⟩
        · cases h
  · rintro ⟨rfl, hsize⟩
    have htext : String.fromUTF8? source.toUTF8 = some source := fromUTF8?_eq_some_iff.2 rfl
    unfold read ofText
    dsimp only
    rw [htext]
    exact if_neg (Nat.not_lt.2 hsize)

theorem FileContent.read_ofText {source : String} (h : source.utf8ByteSize ≤ maxSourceSize) :
    (ofText source).read = .ok source := read_eq_ok_iff.2 ⟨rfl, h⟩

/-! ## Verdicts -/

/-- Whether a file reads as a text that can be formatted. -/
def FileContent.IsFormattable (style : Style) (content : FileContent) : Prop :=
  ∃ source canonical, content.read = .ok source ∧ format style source = .ok canonical

/-- The contents of a file after it was formatted.  A file that cannot be formatted keeps its
contents. -/
def FileContent.formatted (style : Style) (content : FileContent) : FileContent :=
  match content.read with
  | .error _ => content
  | .ok source =>
    match format style source with
    | .error _ => content
    | .ok canonical => .ofText canonical

theorem format_of_format {style : Style} {source canonical : String}
    (h : format style source = .ok canonical) : format style canonical = .ok canonical := by
  cases hparse : parse source with
  | error e =>
    rw [format, hparse] at h
    cases h
  | ok file =>
    rw [format_eq_ok hparse] at h
    obtain rfl := Except.ok.inj h
    exact format_canonical hparse style style

namespace FileContent

variable {style : Style} {content : FileContent} {source canonical : String}

theorem formatted_of_format (hread : content.read = .ok source)
    (hformat : format style source = .ok canonical) :
    content.formatted style = .ofText canonical := by
  simp only [formatted, hread, hformat]

theorem formatted_of_not_isFormattable (h : ¬ content.IsFormattable style) :
    content.formatted style = content := by
  unfold formatted
  split
  · rfl
  · next source hread =>
    split
    · rfl
    · next canonical hformat => exact absurd ⟨source, canonical, hread, hformat⟩ h

/-- What a file that was formatted reads as has its canonical form. -/
theorem format_of_read_formatted {text : String} (hcontent : content.IsFormattable style)
    (hread : (content.formatted style).read = .ok text) : format style text = .ok text := by
  obtain ⟨source, canonical, hsource, hformat⟩ := hcontent
  rw [formatted_of_format hsource hformat, read_eq_ok_iff] at hread
  have hbytes : canonical.toUTF8 = text.toUTF8 := FileContent.bytes.inj hread.1
  obtain rfl := String.toByteArray_inj.1 hbytes
  exact format_of_format hformat

end FileContent

namespace Outcome.Verdict

section OfFile

variable {style : Style} {path source canonical : String} {content : FileContent}

theorem ofFile_of_format (path : String) (hread : content.read = .ok source)
    (hformat : format style source = .ok canonical) :
    ofFile style path content =
      if source = canonical then formatted else differs source canonical := by
  simp only [ofFile, hread, hformat]

/-- All that a verdict can be. -/
theorem ofFile_cases (style : Style) (path : String) (content : FileContent) :
    (∃ report, ofFile style path content = failed report ∧ ¬ content.IsFormattable style) ∨
    (∃ source, ofFile style path content = formatted ∧ content.read = .ok source ∧
      format style source = .ok source) ∨
    ∃ source canonical, ofFile style path content = differs source canonical ∧
      content.read = .ok source ∧ format style source = .ok canonical ∧ source ≠ canonical := by
  cases hread : content.read with
  | error cause =>
    refine .inl ⟨cause.message path ++ "\n", by simp only [ofFile, hread], ?_⟩
    rintro ⟨source, canonical, hsource, -⟩
    rw [hread] at hsource
    cases hsource
  | ok source =>
    cases hformat : format style source with
    | error cause =>
      refine .inl ⟨cause.report path source, by simp only [ofFile, hread, hformat], ?_⟩
      rintro ⟨source', canonical, hsource, hcanonical⟩
      rw [hread] at hsource
      obtain rfl := Except.ok.inj hsource
      rw [hformat] at hcanonical
      cases hcanonical
    | ok canonical =>
      have hverdict := ofFile_of_format path hread hformat
      by_cases heq : source = canonical
      · subst heq
        exact .inr (.inl ⟨source, by rw [hverdict, if_pos rfl], rfl, hformat⟩)
      · exact .inr (.inr ⟨source, canonical, by rw [hverdict, if_neg heq], rfl, hformat, heq⟩)

theorem isFailure_ofFile_iff :
    (ofFile style path content).isFailure = true ↔ ¬ content.IsFormattable style := by
  rcases ofFile_cases style path content with ⟨report, hverdict, hnot⟩ |
    ⟨source, hverdict, hread, hformat⟩ | ⟨source, canonical, hverdict, hread, hformat, -⟩
  · rw [hverdict]
    exact iff_of_true rfl hnot
  · rw [hverdict]
    exact iff_of_false nofun (not_not_intro ⟨source, source, hread, hformat⟩)
  · rw [hverdict]
    exact iff_of_false nofun (not_not_intro ⟨source, canonical, hread, hformat⟩)

theorem ofFile_eq_differs_iff :
    ofFile style path content = differs source canonical ↔
      content.read = .ok source ∧ format style source = .ok canonical ∧ source ≠ canonical := by
  constructor
  · intro h
    rcases ofFile_cases style path content with ⟨report, hverdict, -⟩ | ⟨text, hverdict, -⟩ |
      ⟨text, form, hverdict, hspec⟩
    · rw [h] at hverdict
      cases hverdict
    · rw [h] at hverdict
      cases hverdict
    · rw [h] at hverdict
      cases hverdict
      exact hspec
  · rintro ⟨hread, hformat, hne⟩
    rw [ofFile_of_format path hread hformat, if_neg hne]

theorem ofFile_eq_formatted_iff :
    ofFile style path content = formatted ↔
      ∃ source, content.read = .ok source ∧ format style source = .ok source := by
  constructor
  · intro h
    rcases ofFile_cases style path content with ⟨report, hverdict, -⟩ | ⟨text, hverdict, hspec⟩ |
      ⟨text, form, hverdict, -⟩
    · rw [h] at hverdict
      cases hverdict
    · exact ⟨text, hspec⟩
    · rw [h] at hverdict
      cases hverdict
  · rintro ⟨source, hread, hformat⟩
    rw [ofFile_of_format path hread hformat, if_pos rfl]

theorem isDifference_iff {verdict : Verdict} :
    verdict.isDifference = true ↔ ∃ source canonical, verdict = differs source canonical := by
  cases verdict with
  | failed report => exact iff_of_false nofun nofun
  | formatted => exact iff_of_false nofun nofun
  | differs source canonical => exact iff_of_true rfl ⟨source, canonical, rfl⟩

/-- A file that does not differ is left as it is. -/
theorem formatted_of_not_isDifference (h : ¬ (ofFile style path content).isDifference = true) :
    content.formatted style = content := by
  rcases ofFile_cases style path content with ⟨report, -, hnot⟩ | ⟨text, -, hread, hformat⟩ |
    ⟨text, form, hverdict, -⟩
  · exact FileContent.formatted_of_not_isFormattable hnot
  · rw [FileContent.formatted_of_format hread hformat, (FileContent.read_eq_ok_iff.1 hread).1]
  · exact absurd (isDifference_iff.2 ⟨text, form, hverdict⟩) h

/-- A file that was formatted does not differ any more. -/
theorem not_isDifference_ofFile_formatted (style : Style) (path : String)
    (content : FileContent) :
    ¬ (ofFile style path (content.formatted style)).isDifference = true := by
  rw [isDifference_iff]
  rintro ⟨text, form, hverdict⟩
  obtain ⟨hread, hformat, hne⟩ := ofFile_eq_differs_iff.1 hverdict
  have hform : format style text = .ok text := by
    by_cases hcontent : content.IsFormattable style
    · exact FileContent.format_of_read_formatted hcontent hread
    · rw [FileContent.formatted_of_not_isFormattable hcontent] at hread
      exact absurd ⟨text, form, hread, hformat⟩ hcontent
  rw [hform] at hformat
  exact hne (Except.ok.inj hformat)

end OfFile

end Outcome.Verdict

end DeclLang
