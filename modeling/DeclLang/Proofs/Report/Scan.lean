import DeclLang.Proofs.Lexical.Layout
import DeclLang.Report.Window
import Mathlib.Data.List.DropRight

/-!
# The scan for a window

What the scan over a text finds, said of the text.

* A scan that is over before the text is has the last byte of its label behind it
  (`Scan.run_reaches`).  So there is a window around every label that lies in the text, whatever
  lines of context are asked for (`exists_around?`).
* Without lines of context the scan is over with the last byte of its label, and what it has counted
  by then are the line ends before the label and the bytes between the last of them and the label
  (`exists_around?_place`).

Lines are those of reports: a carriage return ends a line, be there a line feed behind it or not.
`endCount_elements` compares their number with that of the line feeds.
-/

namespace DeclLang

namespace Window

/-! ## The elements of a text -/

/-- The number of bytes of an element. -/
def Element.width (e : Element) : Nat := Scan.lead e + 1

/-- The number of bytes of elements. -/
def width : List Element → Nat
  | [] => 0
  | e :: es => e.width + width es

/-- Whether an element ends a line. -/
def Element.isLineEnd : Element → Bool
  | byte => false
  | lineEnd _ => true

/-- The number of lines that end in elements. -/
def endCount (es : List Element) : Nat := es.countP Element.isLineEnd

/-- The column behind an element, for the column before it. -/
def Element.columnAfter (column : Nat) : Element → Nat
  | byte => column + 1
  | lineEnd _ => 0

/-- The column behind elements, for the column before them. -/
def columnAfter (column : Nat) (es : List Element) : Nat := es.foldl Element.columnAfter column

@[simp]
theorem width_nil : width [] = 0 := rfl

@[simp]
theorem width_cons (e : Element) (es : List Element) : width (e :: es) = e.width + width es := rfl

/-- No element is without bytes. -/
theorem eq_nil_of_width_eq_zero {es : List Element} (h : width es = 0) : es = [] := by
  cases es with
  | nil => rfl
  | cons e es =>
    rw [width_cons, Element.width] at h
    omega

theorem width_bytes (n : Nat) (es : List Element) :
    width (List.replicate n .byte ++ es) = n + width es := by
  induction n with
  | zero => simp
  | succ n ih =>
    rw [List.replicate_succ, List.cons_append, width_cons, ih]
    simp only [Element.width, Scan.lead]
    omega

theorem endCount_cons (e : Element) (es : List Element) :
    endCount (e :: es) = endCount [e] + endCount es := by
  rw [← List.singleton_append]
  exact List.countP_append

theorem endCount_bytes (n : Nat) (es : List Element) :
    endCount (List.replicate n .byte ++ es) = endCount es := by
  rw [endCount, List.countP_append, List.countP_replicate]
  simp [Element.isLineEnd, endCount]

theorem endCount_lineEnd (width : Nat) (es : List Element) :
    endCount (.lineEnd width :: es) = endCount es + 1 :=
  List.countP_cons_of_pos rfl

theorem columnAfter_bytes (column n : Nat) (es : List Element) :
    columnAfter column (List.replicate n .byte ++ es) = columnAfter (column + n) es := by
  induction n generalizing column with
  | zero => rfl
  | succ n ih =>
    have hnext : column + 1 + n = column + (n + 1) := by omega
    rw [← hnext, ← ih]
    rfl

/-- The elements of a text have the bytes of the text. -/
theorem width_elements (cs : List Char) : width (elements cs) = byteWidth cs := by
  fun_induction elements cs with
  | case1 => rfl
  | case2 cs ih =>
    rw [width_cons, ih, byteWidth_cons, byteWidth_cons, ← Nat.add_assoc]
    rfl
  | case3 c cs _ hc ih =>
    have hsize : c.utf8Size = 1 := by rcases hc with rfl | rfl <;> rfl
    rw [width_cons, ih, byteWidth_cons, hsize]
    rfl
  | case4 c cs _ _ ih => rw [width_bytes, ih, byteWidth_cons]

/-- A text can be taken apart anywhere but between a carriage return and a line feed. -/
theorem elements_append {cs ds : List Char} (h : ds.head? ≠ some '\n') :
    elements (cs ++ ds) = elements cs ++ elements ds := by
  fun_induction elements cs with
  | case1 => rfl
  | case2 cs ih =>
    rw [List.cons_append, List.cons_append, elements, ih]
    rfl
  | case3 c cs hne hc ih =>
    have hpair : ∀ es, c = '\r' → cs ++ ds = '\n' :: es → False := by
      intro es hcr hes
      cases cs with
      | nil =>
        rw [List.nil_append] at hes
        rw [hes] at h
        exact h rfl
      | cons d cs =>
        obtain ⟨rfl, -⟩ := List.cons.inj hes
        exact hne cs hcr rfl
    rw [List.cons_append, elements.eq_3 _ _ hpair, if_pos hc, ih]
    rfl
  | case4 c cs _ hc ih =>
    have hpair : ∀ es, c = '\r' → cs ++ ds = '\n' :: es → False := fun _ hcr => absurd (.inl hcr) hc
    rw [List.cons_append, elements.eq_3 _ _ hpair, if_neg hc, ih, List.append_assoc]

/-! ## Lines and columns of reports -/

/-- The number of carriage returns of a text that have no line feed behind them. -/
def loneReturns : List Char → Nat
  | [] => 0
  | '\r' :: '\n' :: cs => loneReturns cs
  | c :: cs => (if c = '\r' then 1 else 0) + loneReturns cs

/-- A line ends with each line feed and with each carriage return that has none behind it. -/
theorem endCount_elements (cs : List Char) :
    endCount (elements cs) = cs.count '\n' + loneReturns cs := by
  fun_induction elements cs with
  | case1 => rfl
  | case2 cs ih =>
    rw [endCount_lineEnd, ih, loneReturns, List.count_cons_of_ne (by decide), List.count_cons_self]
    omega
  | case3 c cs hne hc ih =>
    rw [endCount_lineEnd, ih, loneReturns.eq_3 _ _ hne]
    rcases hc with rfl | rfl
    · rw [List.count_cons_of_ne (by decide), if_pos rfl]
      omega
    · rw [List.count_cons_self, if_neg (by decide)]
      omega
  | case4 c cs hne hc ih =>
    obtain ⟨hreturn, hfeed⟩ := not_or.1 hc
    rw [endCount_bytes, ih, loneReturns.eq_3 _ _ hne, if_neg hreturn, List.count_cons_of_ne hfeed,
      Nat.zero_add]

/-- Whether a character ends a line of a report. -/
def endsLine (c : Char) : Bool := c == '\r' || c == '\n'

/-- The column of a report counts bytes, from the last character that ends a line. -/
theorem columnAfter_elements_eq_foldl (column : Nat) (cs : List Char) :
    columnAfter column (elements cs) =
      cs.foldl (fun n c => if endsLine c then 0 else n + c.utf8Size) column := by
  fun_induction elements cs generalizing column with
  | case1 => rfl
  | case2 cs ih => exact ih 0
  | case3 c cs _ hc ih =>
    have hends : endsLine c = true := by simpa [endsLine] using hc
    rw [List.foldl_cons, if_pos hends]
    exact ih 0
  | case4 c cs _ hc ih =>
    have hends : ¬ endsLine c = true := by simpa [endsLine] using hc
    rw [List.foldl_cons, if_neg hends, columnAfter_bytes, ih]

theorem columnAfter_elements (cs : List Char) :
    columnAfter 0 (elements cs) = byteWidth (cs.rtakeWhile fun c => !endsLine c) := by
  rw [columnAfter_elements_eq_foldl]
  induction cs using List.reverseRecOn with
  | nil => rfl
  | append_singleton cs c ih =>
    rw [List.foldl_concat]
    by_cases hc : endsLine c = true
    · rw [if_pos hc, List.rtakeWhile_concat_neg _ _ _ (by simpa using hc), byteWidth_nil]
    · rw [if_neg hc, List.rtakeWhile_concat_pos _ _ _ (by simpa using hc), ih, byteWidth_append,
        byteWidth_cons, byteWidth_nil, Nat.add_zero]

/-! ## How far the scan gets -/

namespace Scan

variable {label : Label} {before after : Nat} {s : Scan} {e : Element} {es : List Element}

theorem leaveLineBefore_fields (before : Nat) (s : Scan) :
    (s.leaveLineBefore before).offset = s.offset ∧
      (s.leaveLineBefore before).reached = s.reached := by
  unfold leaveLineBefore
  dsimp only
  split <;> exact ⟨rfl, rfl⟩

/-- To pass over an element does not move the scan and notices nothing.  Only a scan that has
noticed the last byte of its label is over then. -/
theorem pass_fields (s : Scan) (e : Element) :
    (pass label before after s e).1.offset = s.offset ∧
      (pass label before after s e).1.reached = s.reached ∧
      ((pass label before after s e).2 = true → s.reached = true) := by
  unfold pass
  split
  · split <;> exact ⟨rfl, rfl, nofun⟩
  · split
    · obtain ⟨hoffset, hreached⟩ := s.leaveLineBefore_fields before
      exact ⟨hoffset, hreached, nofun⟩
    · split
      · next hpast =>
        dsimp only
        split <;> exact ⟨rfl, rfl, fun _ => hpast.2⟩
      · exact ⟨rfl, rfl, nofun⟩

/-- The scan has noticed the last byte of its label only if that lies behind it. -/
def Notices (label : Label) (s : Scan) : Prop :=
  s.reached = true → label.offset + label.length - 1 ≤ s.offset

theorem notice_fields (s : Scan) :
    (notice label after s).1.offset = s.offset ∧
      ((notice label after s).2 = true → label.offset + label.length - 1 ≤ s.offset) ∧
      (Notices label s → Notices label (notice label after s).1) := by
  unfold notice
  split
  · next h => exact ⟨rfl, fun _ => h, fun _ _ => h⟩
  · exact ⟨rfl, nofun, id⟩

/-- A step goes over the bytes of its element, and it ends the scan or notices the last byte of the
label only at or behind that byte. -/
theorem step_fields (h : Notices label s) (e : Element) :
    (step label before after s e).1.offset = s.offset + e.width ∧
      Notices label (step label before after s e).1 ∧
      ((step label before after s e).2 = true →
        label.offset + label.length - 1 < s.offset + e.width) := by
  obtain ⟨hoffset, hreached, hover⟩ :=
    @pass_fields label before after { s with offset := s.offset + lead e } e
  unfold step
  dsimp only at hoffset hreached hover ⊢
  generalize pass label before after { s with offset := s.offset + lead e } e = passed at *
  have hpassed : Notices label passed.1 := by
    intro h'
    have hle := h (hreached ▸ h')
    omega
  obtain ⟨hsame, hnoticed, hnotices⟩ := @notice_fields label after passed.1
  rw [Element.width]
  split
  · next hend =>
    have hle := h (hover hend)
    refine ⟨by omega, fun _ => ?_, fun _ => ?_⟩
    · dsimp only
      omega
    · omega
  · refine ⟨by omega, fun h' => ?_, fun hend => ?_⟩
    · have hle := hnotices hpassed h'
      dsimp only
      omega
    · have hle := hnoticed hend
      omega

/-- A scan that is over before the text is has the last byte of its label behind it. -/
theorem run_reaches (h : Notices label s) (es : List Element) :
    (run label before after s es).offset = s.offset + width es ∨
      label.offset + label.length - 1 ≤ (run label before after s es).offset := by
  induction es generalizing s with
  | nil => exact .inl rfl
  | cons e es ih =>
    obtain ⟨hoffset, hnotices, hover⟩ := @step_fields label before after s h e
    rw [run]
    split
    · next hend =>
      rw [← hoffset] at hover
      exact .inr (Nat.le_of_lt (hover hend))
    · rw [width_cons, ← Nat.add_assoc, ← hoffset]
      exact ih hnotices

end Scan

/-- There is a window around every label that lies in the text. -/
theorem exists_around? {label : Label} {text : List Char}
    (h : label.offset + label.length ≤ byteWidth text) (before after : Nat) :
    ∃ window, around? label before after text = some window := by
  have hreaches := @Scan.run_reaches label before after {} nofun (elements text)
  rw [width_elements, Nat.zero_add] at hreaches
  have hlast : label.offset + label.length - 1 ≤
      (Scan.run label before after {} (elements text)).offset := by omega
  rw [around?]
  exact ⟨_, if_pos hlast⟩

/-! ## What the scan counts -/

namespace Scan

variable {label : Label} {s : Scan} {es : List Element}

/-- Noticing the last byte of the label counts nothing, and without lines of context behind the
label the scan is over then. -/
theorem notice_place (label : Label) (s : Scan) :
    (notice label 0 s).1.line = s.line ∧ (notice label 0 s).1.column = s.column ∧
      ((notice label 0 s).2 = false → (notice label 0 s).1.reached = s.reached) := by
  unfold notice
  split
  · exact ⟨rfl, rfl, nofun⟩
  · exact ⟨rfl, rfl, fun _ => rfl⟩

/-- Before the label, lines and columns are counted. -/
theorem pass_place_before (h : s.offset < label.offset) (e : Element) :
    (pass label 0 0 s e).1.line = s.line + endCount [e] ∧
      (pass label 0 0 s e).1.column = e.columnAfter s.column ∧
      (pass label 0 0 s e).2 = false := by
  unfold pass
  split
  · rw [if_pos h]
    exact ⟨rfl, rfl, rfl⟩
  · have hkept : 0 < (s.context ++ [s.lineStart]).length := by simp
    rw [if_pos h, leaveLineBefore, if_pos hkept]
    exact ⟨rfl, rfl, rfl⟩

/-- From the label on, nothing is counted until its last byte has been noticed. -/
theorem pass_place_behind (h : label.offset ≤ s.offset) (hreached : s.reached = false)
    (e : Element) :
    (pass label 0 0 s e).1.line = s.line ∧ (pass label 0 0 s e).1.column = s.column ∧
      (pass label 0 0 s e).2 = false := by
  unfold pass
  split
  · rw [if_neg (Nat.not_lt.2 h)]
    exact ⟨rfl, rfl, rfl⟩
  · rw [if_neg (Nat.not_lt.2 h), if_neg (by simp [hreached])]
    exact ⟨rfl, rfl, rfl⟩

/-- A step counts what passing over its element counts, and it goes on only if it notices
nothing. -/
theorem step_place {e : Element}
    (h : (pass label 0 0 { s with offset := s.offset + lead e } e).2 = false) :
    (step label 0 0 s e).1.line = (pass label 0 0 { s with offset := s.offset + lead e } e).1.line ∧
      (step label 0 0 s e).1.column =
        (pass label 0 0 { s with offset := s.offset + lead e } e).1.column ∧
      ((step label 0 0 s e).2 = false → (step label 0 0 s e).1.reached = s.reached) := by
  obtain ⟨-, hreached, -⟩ := @pass_fields label 0 0 { s with offset := s.offset + lead e } e
  unfold step
  dsimp only at hreached ⊢
  generalize pass label 0 0 { s with offset := s.offset + lead e } e = passed at *
  obtain ⟨hline, hcolumn, hgoesOn⟩ := notice_place label passed.1
  rw [if_neg (by simp [h])]
  exact ⟨hline, hcolumn, fun hend => (hgoesOn hend).trans hreached⟩

/-- A step before the label counts its element, and nothing has been noticed if the scan goes on. -/
theorem step_place_before {e : Element} (h : s.offset + lead e < label.offset)
    (hreached : s.reached = false) :
    (step label 0 0 s e).1.line = s.line + endCount [e] ∧
      (step label 0 0 s e).1.column = e.columnAfter s.column ∧
      ((step label 0 0 s e).2 = false → (step label 0 0 s e).1.reached = false) := by
  obtain ⟨hpassLine, hpassColumn, hpass⟩ := pass_place_before
    (s := { s with offset := s.offset + lead e }) h e
  obtain ⟨hline, hcolumn, hgoesOn⟩ := step_place hpass
  exact ⟨hline.trans hpassLine, hcolumn.trans hpassColumn,
    fun hend => (hgoesOn hend).trans hreached⟩

/-- A step from the label on counts nothing, and nothing has been noticed if the scan goes on. -/
theorem step_place_behind (h : label.offset ≤ s.offset) (hreached : s.reached = false)
    (e : Element) :
    (step label 0 0 s e).1.line = s.line ∧ (step label 0 0 s e).1.column = s.column ∧
      ((step label 0 0 s e).2 = false → (step label 0 0 s e).1.reached = false) := by
  have hmoved : label.offset ≤ s.offset + lead e := by omega
  obtain ⟨hpassLine, hpassColumn, hpass⟩ := pass_place_behind
    (s := { s with offset := s.offset + lead e }) hmoved hreached e
  obtain ⟨hline, hcolumn, hgoesOn⟩ := step_place hpass
  exact ⟨hline.trans hpassLine, hcolumn.trans hpassColumn,
    fun hend => (hgoesOn hend).trans hreached⟩

theorem notices_of_not_reached (h : s.reached = false) : Notices label s := by
  intro hreached
  rw [h] at hreached
  cases hreached

theorem run_place_behind (h : label.offset ≤ s.offset) (hreached : s.reached = false)
    (es : List Element) :
    (run label 0 0 s es).line = s.line ∧ (run label 0 0 s es).column = s.column := by
  induction es generalizing s with
  | nil => exact ⟨rfl, rfl⟩
  | cons e es ih =>
    obtain ⟨hline, hcolumn, hgoesOn⟩ := step_place_behind h hreached e
    obtain ⟨hoffset, -, -⟩ := @step_fields label 0 0 s (notices_of_not_reached hreached) e
    rw [run]
    split
    · exact ⟨hline, hcolumn⟩
    · next hend =>
      have hlater := @ih (step label 0 0 s e).1 (by omega)
        (hgoesOn (Bool.eq_false_iff.2 hend))
      rwa [hline, hcolumn] at hlater

/-- By the time the scan is over, it has counted the lines that end before its label and the bytes
on the line before it. -/
theorem run_place (hoffset : s.offset + width es = label.offset) (hreached : s.reached = false)
    (rest : List Element) :
    (run label 0 0 s (es ++ rest)).line = s.line + endCount es ∧
      (run label 0 0 s (es ++ rest)).column = columnAfter s.column es := by
  induction es generalizing s with
  | nil =>
    rw [width_nil, Nat.add_zero] at hoffset
    exact run_place_behind (Nat.le_of_eq hoffset.symm) hreached rest
  | cons e es ih =>
    rw [width_cons, ← Nat.add_assoc] at hoffset
    have hmoved : s.offset + lead e < label.offset := by
      have hwidth : e.width = lead e + 1 := rfl
      omega
    obtain ⟨hline, hcolumn, hgoesOn⟩ := step_place_before hmoved hreached
    obtain ⟨hstep, -, hover⟩ := @step_fields label 0 0 s (notices_of_not_reached hreached) e
    rw [List.cons_append, run]
    split
    · next hend =>
      -- The scan is over this early only if the label is empty and right behind the element.
      have hlast := hover hend
      obtain rfl : es = [] := eq_nil_of_width_eq_zero (by omega)
      exact ⟨hline, hcolumn⟩
    · next hend =>
      have hlater := @ih (step label 0 0 s e).1 (by omega)
        (hgoesOn (Bool.eq_false_iff.2 hend))
      rw [hline, hcolumn, Nat.add_assoc, ← endCount_cons] at hlater
      exact hlater

end Scan

/-- The place of a label that lies in a text and begins between two characters, but not between a
carriage return and a line feed. -/
theorem exists_around?_place {label : Label} {before rest : List Char}
    (hoffset : label.offset = byteWidth before) (hlength : label.length ≤ byteWidth rest)
    (hrest : rest.head? ≠ some '\n') :
    ∃ place, around? label 0 0 (before ++ rest) = some place ∧
      place.line = before.count '\n' + loneReturns before ∧
      place.column = byteWidth (before.rtakeWhile fun c => !endsLine c) := by
  have hfits : label.offset + label.length ≤ byteWidth (before ++ rest) := by
    rw [byteWidth_append]
    omega
  obtain ⟨place, hplace⟩ := exists_around? hfits 0 0
  have hwidth : ({} : Scan).offset + width (elements before) = label.offset := by
    rw [width_elements, hoffset, Nat.zero_add]
  obtain ⟨hline, hcolumn⟩ := Scan.run_place hwidth rfl (elements rest)
  rw [endCount_elements, Nat.zero_add] at hline
  rw [columnAfter_elements] at hcolumn
  refine ⟨place, hplace, ?_⟩
  rw [around?, elements_append hrest] at hplace
  obtain ⟨-, hwindow⟩ := Option.ite_none_right_eq_some.1 hplace
  cases hwindow
  exact ⟨hline, hcolumn⟩

end Window

end DeclLang
