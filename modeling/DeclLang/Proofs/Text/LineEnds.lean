import DeclLang.Proofs.Text.Lines

/-!
# The ends of lines

`Lines.ofString` is blind to how a line ends.  What it is blind to is written down here apart from
it: `Lines.unified text` is the text with its line ends made alike, that is without the carriage
returns that a line feed follows, and with a line feed behind the last line.

The lines of a text are what cutting its unified form at the line feeds gives
(`Lines.cutAtFeeds_unified`), and so texts have the same lines exactly if their unified forms are the
same (`Lines.ofString_eq_iff`).
-/

namespace DeclLang

/-! ## Making line ends alike -/

/-- The text without the carriage returns that a line feed follows. -/
def withoutReturns : List Char → List Char
  | [] => []
  | '\r' :: '\n' :: cs => '\n' :: withoutReturns cs
  | c :: cs => c :: withoutReturns cs

/-- The text with a line feed at its end, unless there is one already or no text at all. -/
def endingLast (cs : List Char) : List Char :=
  if cs = [] ∨ cs.getLast? = some '\n' then cs else cs ++ ['\n']

theorem endingLast_lineFeed_cons (cs : List Char) :
    endingLast ('\n' :: cs) = '\n' :: endingLast cs := by
  cases cs with
  | nil => rfl
  | cons c cs =>
    unfold endingLast
    rw [List.getLast?_cons_cons]
    split <;> simp_all

theorem endingLast_cons {cs : List Char} (h : cs ≠ []) (c : Char) :
    endingLast (c :: cs) = c :: endingLast cs := by
  obtain ⟨d, ds, rfl⟩ := List.exists_cons_of_ne_nil h
  unfold endingLast
  rw [List.getLast?_cons_cons]
  split <;> simp_all

theorem withoutReturns_ne_nil {cs : List Char} (h : cs ≠ []) : withoutReturns cs ≠ [] := by
  fun_cases withoutReturns cs <;> simp_all

/-- A character stays, unless it is a carriage return with a line feed behind it. -/
theorem withoutReturns_cons {c : Char} {cs : List Char} (h : ∀ ds, c = '\r' → cs ≠ '\n' :: ds) :
    withoutReturns (c :: cs) = c :: withoutReturns cs := by
  rw [withoutReturns]
  exact fun ds hc hds => h ds hc hds

/-! ## The lines of a text -/

theorem Line.ofText_eq_nil_iff {cs : List Char} : ofText cs = [] ↔ cs = [] := by
  fun_cases ofText cs <;> simp_all

theorem Line.lineFeed_notMem_ofText (cs : List Char) : ∀ line ∈ ofText cs, '\n' ∉ line.text := by
  fun_induction ofText cs with
  | case4 c cs hfeed => simpa using Ne.symm hfeed
  | case5 c cs hfeed _ line lines hsome ih =>
    rw [hsome] at ih
    obtain ⟨hline, hlines⟩ := List.forall_mem_cons.1 ih
    simpa [Ne.symm hfeed, hline] using hlines
  | _ => simp_all

/-- Joining the lines of a text makes its line ends alike. -/
theorem Line.flatMap_ofText (cs : List Char) :
    (ofText cs).flatMap (fun line => line.text ++ ['\n']) = endingLast (withoutReturns cs) := by
  fun_induction ofText cs with
  | case1 => rfl
  | case2 cs ih =>
    rw [List.flatMap_cons, ih, withoutReturns_cons (by simp), endingLast_lineFeed_cons]
    rfl
  | case3 cs ih =>
    rw [List.flatMap_cons, ih, withoutReturns, endingLast_lineFeed_cons]
    rfl
  | case4 c cs hfeed _ hnone =>
    obtain rfl := ofText_eq_nil_iff.1 hnone
    simpa [withoutReturns, endingLast] using hfeed
  | case5 c cs hfeed hreturn line lines hsome ih =>
    have hcs : cs ≠ [] := by
      rintro rfl
      simp [ofText] at hsome
    rw [withoutReturns_cons hreturn, endingLast_cons (withoutReturns_ne_nil hcs), ← ih, hsome]
    rfl

namespace Lines

/-- The text with its line ends made alike. -/
def unified (text : String) : String := .ofList (endingLast (withoutReturns text.toList))

theorem cutAtFeeds_unified (text : String) : CutAtFeeds (unified text) (ofString text) := by
  constructor
  · rw [← String.toList_inj, toList_join, unified, String.toList_ofList, ← Line.flatMap_ofText,
      ofString, List.flatMap_map]
    simp only [String.toList_ofList]
  · intro line hline
    obtain ⟨line, hmem, rfl⟩ := List.mem_map.1 hline
    rw [String.toList_ofList]
    exact Line.lineFeed_notMem_ofText _ _ hmem

/-- Texts have the same lines exactly if they differ in their line ends only. -/
theorem ofString_eq_iff {text other : String} :
    ofString text = ofString other ↔ unified text = unified other := by
  have htext := cutAtFeeds_unified text
  have hother := cutAtFeeds_unified other
  constructor
  · intro h
    rw [htext.eq_join, hother.eq_join, h]
  · intro h
    rw [← h] at hother
    exact hother.unique htext

end Lines

end DeclLang
