import DeclLang.Proofs.LineDiff.Records
import DeclLang.Proofs.Printer.Formatting
import DeclLang.Proofs.Text.LineEnds

/-!
# Differences are patches

The differences between two texts lead from the lines of one to those of the other.
`LineEdit.carryOut?` carries edits out without knowing the new lines: it takes the removed lines away,
from the last to the first, after looking whether each is there, and then puts the added lines at their
numbers, from the first to the last.  The lines that both texts have at one number are what there is
in between (`LineEdit.inCommon`).

* The edits are in order (`LineEdit.pairwise_between`).
* Taking away leads from the old lines to those in common (`LineEdit.foldrM_dropFrom?_between`), and
  putting leads on from there to the new lines (`LineEdit.foldlM_putInto?_between`).

`formatDiff_patch` says this of the text that shows what formatting would change.
-/

namespace DeclLang

namespace LineEdit

variable {number : Nat} {olds news before : List String}

/-! ## The order of edits -/

/-- The first edit is of a line before that of the second, or it removes the line of the number at
which the second adds one. -/
def Precedes (a b : LineEdit) : Prop :=
  a.number < b.number ∨ a.number = b.number ∧ a.action = .remove ∧ b.action = .add

theorem le_number_of_mem_between {edit : LineEdit} (h : edit ∈ between number olds news) :
    number ≤ edit.number := by
  fun_induction between number olds news with
  | case1 => cases h
  | case2 number old olds ih =>
    rcases List.mem_cons.1 h with rfl | h
    · exact Nat.le_refl _
    · exact Nat.le_of_succ_le (ih h)
  | case3 number new news ih =>
    rcases List.mem_cons.1 h with rfl | h
    · exact Nat.le_refl _
    · exact Nat.le_of_succ_le (ih h)
  | case4 number olds line news ih => exact Nat.le_of_succ_le (ih h)
  | case5 number old olds new news _ ih =>
    rcases List.mem_cons.1 h with rfl | h
    · exact Nat.le_refl _
    rcases List.mem_cons.1 h with rfl | h
    · exact Nat.le_refl _
    · exact Nat.le_of_succ_le (ih h)

/-- Edits are in the order of their lines, and at each number the line that is removed is before the
line that is added. -/
theorem pairwise_between (number : Nat) (olds news : List String) :
    (between number olds news).Pairwise Precedes := by
  have hlater : ∀ {edit : LineEdit} {number : Nat} {olds news : List String},
      edit.number = number → ∀ more ∈ between (number + 1) olds news, edit.Precedes more := by
    rintro edit number olds news rfl more hmore
    exact .inl (le_number_of_mem_between hmore)
  fun_induction between number olds news with
  | case1 => exact .nil
  | case2 number old olds ih => exact .cons (hlater rfl) ih
  | case3 number new news ih => exact .cons (hlater rfl) ih
  | case4 number olds line news ih => exact ih
  | case5 number old olds new news _ ih =>
    refine .cons ?_ (.cons (hlater rfl) ih)
    rw [List.forall_mem_cons]
    exact ⟨.inr ⟨rfl, rfl, rfl⟩, hlater rfl⟩

/-- What an edit says is a line of one of the texts. -/
theorem content_mem_of_mem_between {edit : LineEdit} (h : edit ∈ between number olds news) :
    edit.content ∈ olds ∨ edit.content ∈ news := by
  fun_induction between number olds news with
  | case1 => cases h
  | _ => grind

/-- There is nothing to do exactly between the same lines. -/
theorem between_eq_nil_iff : between number olds news = [] ↔ olds = news := by
  fun_induction between number olds news <;> simp_all

/-! ## Carrying out edits -/

/-- Taking the line away that an edit removes, if it is there. -/
def dropFrom? (edit : LineEdit) (lines : List String) : Option (List String) :=
  match edit.action with
  | .add => some lines
  | .remove =>
    if 0 < edit.number ∧ lines[edit.number - 1]? = some edit.content then
      some (lines.eraseIdx (edit.number - 1))
    else none

/-- Putting the line that an edit adds at its number, if there are lines up to there. -/
def putInto? (edit : LineEdit) (lines : List String) : Option (List String) :=
  match edit.action with
  | .remove => some lines
  | .add =>
    if 0 < edit.number ∧ edit.number ≤ lines.length + 1 then
      some (lines.insertIdx (edit.number - 1) edit.content)
    else none

/-- Carrying out edits.  Lines are removed from the last to the first, when those above still have
their old numbers, and added from the first to the last, when those above have their new ones. -/
def carryOut? (edits : List LineEdit) (lines : List String) : Option (List String) := do
  let kept ← edits.foldrM dropFrom? lines
  edits.foldlM (fun lines edit => edit.putInto? lines) kept

theorem dropFrom?_remove (before lines : List String) (line : String) :
    dropFrom? ⟨.remove, before.length + 1, line⟩ (before ++ line :: lines) =
      some (before ++ lines) := by
  simp [dropFrom?, List.eraseIdx_append_of_length_le]

theorem insertIdx_length_append (before lines : List String) (line : String) :
    (before ++ lines).insertIdx before.length line = before ++ line :: lines := by
  induction before with
  | nil => rfl
  | cons first before ih =>
    rw [List.cons_append, List.length_cons, List.insertIdx_succ_cons, ih, List.cons_append]

theorem putInto?_add (before lines : List String) (line : String) :
    putInto? ⟨.add, before.length + 1, line⟩ (before ++ lines) =
      some (before ++ line :: lines) := by
  simp [putInto?, insertIdx_length_append]

/-- The lines that two texts have at the same number. -/
def inCommon : List String → List String → List String
  | old :: olds, new :: news =>
    if old = new then old :: inCommon olds news else inCommon olds news
  | _, _ => []

theorem inCommon_nil (olds : List String) : inCommon olds [] = [] := by
  cases olds <;> rfl

theorem nil_inCommon (news : List String) : inCommon [] news = [] := by
  cases news <;> rfl

/-- Where there are no old lines, there is nothing to take away. -/
theorem foldrM_dropFrom?_between_nil (number : Nat) (lines news : List String) :
    (between number [] news).foldrM dropFrom? lines = some lines := by
  induction news generalizing number with
  | nil =>
    rw [between, List.foldrM_nil]
    rfl
  | cons new news ih =>
    rw [between, List.foldrM_cons, ih]
    rfl

/-- Where there are no new lines, there is nothing to put. -/
theorem foldlM_putInto?_between_nil (number : Nat) (lines olds : List String) :
    (between number olds []).foldlM (fun lines edit => edit.putInto? lines) lines = some lines := by
  induction olds generalizing number with
  | nil =>
    rw [between, List.foldlM_nil]
    rfl
  | cons old olds ih =>
    rw [between, List.foldlM_cons]
    exact ih (number + 1)

/-- The number of the line behind `before` and one more line. -/
theorem number_behind (line : String) (hnumber : number = before.length + 1) :
    number + 1 = (before ++ [line]).length + 1 := by
  rw [hnumber, List.length_append, List.length_singleton]

/-- Every line that is to be removed is there, and taking them away leaves the lines in common. -/
theorem foldrM_dropFrom?_between (hnumber : number = before.length + 1) :
    (between number olds news).foldrM dropFrom? (before ++ olds) =
      some (before ++ inCommon olds news) := by
  -- The edits of later lines come first, while the line of this number is still there.
  fun_induction between number olds news generalizing before with
  | case1 => rfl
  | case2 number old olds ih =>
    have hlater := ih (number_behind old hnumber)
    simp only [List.append_assoc, List.singleton_append] at hlater
    rw [List.foldrM_cons, hlater, inCommon_nil, inCommon_nil, hnumber]
    exact dropFrom?_remove before [] old
  | case3 number new news =>
    rw [← between, foldrM_dropFrom?_between_nil, nil_inCommon]
  | case4 number olds line news ih =>
    have hlater := ih (number_behind line hnumber)
    simp only [List.append_assoc, List.singleton_append] at hlater
    rw [hlater, inCommon, if_pos rfl]
  | case5 number old olds new news hne ih =>
    have hlater := ih (number_behind old hnumber)
    simp only [List.append_assoc, List.singleton_append] at hlater
    rw [List.foldrM_cons, List.foldrM_cons, hlater, inCommon, if_neg hne, hnumber]
    exact dropFrom?_remove before _ old

/-- Putting the added lines between those in common gives the new lines. -/
theorem foldlM_putInto?_between (hnumber : number = before.length + 1) :
    (between number olds news).foldlM (fun lines edit => edit.putInto? lines)
      (before ++ inCommon olds news) = some (before ++ news) := by
  -- The edits of later lines come last, when the line of this number is the new one.
  fun_induction between number olds news generalizing before with
  | case1 => rfl
  | case2 number old olds =>
    rw [← between, foldlM_putInto?_between_nil, inCommon_nil]
  | case3 number new news ih =>
    have hlater := ih (number_behind new hnumber)
    simp only [List.append_assoc, List.singleton_append] at hlater
    have hput := putInto?_add before (inCommon [] news) new
    rw [nil_inCommon] at hput hlater
    rw [List.foldlM_cons, nil_inCommon, hnumber, hput, ← hnumber]
    exact hlater
  | case4 number olds line news ih =>
    have hlater := ih (number_behind line hnumber)
    simp only [List.append_assoc, List.singleton_append] at hlater
    rw [inCommon, if_pos rfl, hlater]
  | case5 number old olds new news hne ih =>
    have hlater := ih (number_behind new hnumber)
    simp only [List.append_assoc, List.singleton_append] at hlater
    have hput := putInto?_add before (inCommon olds news) new
    rw [← hnumber] at hput
    rw [inCommon, if_neg hne]
    show (putInto? ⟨.add, number, new⟩ (before ++ inCommon olds news)).bind _ = _
    rw [hput]
    exact hlater

theorem carryOut?_between (olds news : List String) :
    carryOut? (between 1 olds news) olds = some news := by
  have hdrop := @foldrM_dropFrom?_between 1 olds news [] rfl
  have hput := @foldlM_putInto?_between 1 olds news [] rfl
  rw [List.nil_append, List.nil_append] at hdrop hput
  rw [carryOut?, hdrop]
  exact hput

end LineEdit

/-! ## The differences of two texts -/

section LineDiff

open LineEdit

variable (old new : String)

theorem lineFeed_notMem_between :
    ∀ edit ∈ between 1 (Lines.ofString old) (Lines.ofString new), '\n' ∉ edit.content.toList := by
  intro edit hedit
  rcases content_mem_of_mem_between hedit with hold | hnew
  · exact (Lines.cutAtFeeds_unified old).lineFeed_notMem _ hold
  · exact (Lines.cutAtFeeds_unified new).lineFeed_notMem _ hnew

theorem cutAtFeeds_lineDiff :
    Lines.CutAtFeeds (lineDiff old new)
      ((between 1 (Lines.ofString old) (Lines.ofString new)).map display) :=
  cutAtFeeds_displays (lineFeed_notMem_between old new)

/-- No differences are shown exactly between texts that differ in their line ends only. -/
theorem lineDiff_eq_empty_iff : lineDiff old new = "" ↔ Lines.ofString old = Lines.ofString new := by
  rw [← @between_eq_nil_iff 1]
  constructor
  · intro h
    have hcut := cutAtFeeds_lineDiff old new
    rw [h] at hcut
    have hnone : Lines.CutAtFeeds "" [] := ⟨rfl, nofun⟩
    exact List.map_eq_nil_iff.1 (hnone.unique hcut)
  · intro h
    rw [lineDiff, h]
    rfl

end LineDiff

/-- What formatting would change, as text, is a patch.  For a text that can be read there is nothing
to show exactly if it has its canonical form.  Otherwise the lines of what is shown are read back as
edits, which no other edits are shown as; they are in order, with at most one line removed and one
added at a number; and carrying them out on the lines of the text gives the lines of its canonical
form.  Nothing but an empty text is shown exactly if the lines are the same already, that is if the
text differs from its canonical form in its line ends only. -/
theorem formatDiff_patch (style : Style) {source : String} {file : SourceFile}
    (h : parse source = .ok file) :
    ∃ formatted, format style source = .ok formatted ∧
      (formatDiff style source = .ok none ↔ source = formatted) ∧
      (source ≠ formatted → ∃ diff rows edits, formatDiff style source = .ok (some diff) ∧
        Lines.CutAtFeeds diff rows ∧ rows.mapM LineEdit.read? = some edits ∧
        (∀ others : List LineEdit, (∀ edit ∈ others, '\n' ∉ edit.content.toList) →
          diff = Lines.join (others.map LineEdit.display) → others = edits) ∧
        edits.Pairwise LineEdit.Precedes ∧
        LineEdit.carryOut? edits (Lines.ofString source) = some (Lines.ofString formatted) ∧
        (diff = "" ↔ Lines.ofString source = Lines.ofString formatted) ∧
        (diff = "" ↔ Lines.unified source = Lines.unified formatted)) := by
  have hdiff : formatDiff style source =
      .ok (if source = file.canonical style then none
        else some (lineDiff source (file.canonical style))) := by
    rw [formatDiff, format_eq_ok h]
    rfl
  refine ⟨file.canonical style, format_eq_ok h style, ?_, ?_⟩
  · rw [hdiff, Except.ok.injEq, ite_eq_left_iff]
    simp
  · intro hne
    rw [if_neg hne] at hdiff
    have hempty := lineDiff_eq_empty_iff source (file.canonical style)
    refine ⟨_, _, _, hdiff, cutAtFeeds_lineDiff _ _, LineEdit.mapM_read?_display _, ?_,
      LineEdit.pairwise_between _ _ _, LineEdit.carryOut?_between _ _, hempty, ?_⟩
    · intro others hothers heq
      exact LineEdit.join_display_injective hothers (lineFeed_notMem_between _ _) heq.symm
    · rw [hempty, Lines.ofString_eq_iff]

/-- A text with a bar and signs in a comment, a carriage return before a line feed and no line feed at
its end. -/
theorem formatDiff_patch_bar_in_comment :
    ∃ diff rows edits, formatDiff {} "import 'b'\r\nvar x=1 //+ 2 | 3" = .ok (some diff) ∧
      Lines.CutAtFeeds diff rows ∧ rows.mapM LineEdit.read? = some edits ∧
      LineEdit.carryOut? edits ["import 'b'", "var x=1 //+ 2 | 3"] =
        some ["import \"b\"", "", "var x = 1"] := by
  have hparse : parse "import 'b'\r\nvar x=1 //+ 2 | 3" =
      .ok ⟨[⟨"b", 7, 10, 1, 8⟩], [⟨⟨.var, "x", .integer 1⟩, 12, 19, 2, 1⟩]⟩ := by
    decide +kernel
  have hformat : format {} "import 'b'\r\nvar x=1 //+ 2 | 3" =
      .ok "import \"b\"\n\nvar x = 1\n" := by
    rw [format_eq_ok hparse]
    decide +kernel
  obtain ⟨formatted, hformatted, -, hpatch⟩ := formatDiff_patch {} hparse
  rw [hformat, Except.ok.injEq] at hformatted
  subst hformatted
  obtain ⟨diff, rows, edits, hdiff, hcut, hread, -, -, hcarry, -⟩ := hpatch (by decide +kernel)
  refine ⟨diff, rows, edits, hdiff, hcut, hread, ?_⟩
  have hold : Lines.ofString "import 'b'\r\nvar x=1 //+ 2 | 3" =
      ["import 'b'", "var x=1 //+ 2 | 3"] := by decide +kernel
  have hnew : Lines.ofString "import \"b\"\n\nvar x = 1\n" =
      ["import \"b\"", "", "var x = 1"] := by decide +kernel
  rwa [hold, hnew] at hcarry

end DeclLang
