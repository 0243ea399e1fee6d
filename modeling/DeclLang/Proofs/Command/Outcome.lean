import DeclLang.Proofs.Command.Verdict

/-!
# The outcome of formatting

What is said about many files is said about each on its own, in order (`concat_map_filterMap`).
The outcome of formatting has one of few forms: there may be no files (`ofFmt_of_nil`); files may
be formatted (`ofFmt_write`); and where they are only looked at, some of them may differ, or none
of them differ and some fail, or all of them be formatted (`ofFmt_look`).
-/

namespace DeclLang.Outcome

/-! ## Texts in a row -/

theorem concat_cons (text : String) (texts : List String) :
    concat (text :: texts) = text ++ concat texts := rfl

theorem concat_map_of_forall_eq_empty {α : Type} {elements : List α} {adds : α → String}
    (h : ∀ a ∈ elements, adds a = "") : concat (elements.map adds) = "" := by
  induction elements with
  | nil => rfl
  | cons a more ih =>
    obtain ⟨ha, hmore⟩ := List.forall_mem_cons.1 h
    rw [List.map_cons, concat_cons, ha, ih hmore]
    rfl

/-- What elements add to a text is what those of them add that add anything. -/
theorem concat_map_filterMap {α β : Type} {elements : List α} {adds : α → String}
    {part? : α → Option β} {display : β → String}
    (h : ∀ a ∈ elements, adds a = ((part? a).map display).getD "") :
    concat (elements.map adds) = concat ((elements.filterMap part?).map display) := by
  induction elements with
  | nil => rfl
  | cons a more ih =>
    obtain ⟨ha, hmore⟩ := List.forall_mem_cons.1 h
    rw [List.map_cons, concat_cons, ha, ih hmore, List.filterMap_cons]
    cases part? a with
    | none => exact String.empty_append
    | some part => rfl

/-! ## Formatting files -/

section OfFmt

variable (lookup : Lookup) (style : Style) (path : String)

/-- What is found out about a collected file. -/
abbrev verdictOf (file : String × FileContent) : Verdict := Verdict.ofFile style file.1 file.2

theorem ofFmt_of_nil (check diff : Bool) (h : collectSources lookup path = []) :
    ofFmt lookup style check diff path =
      { stderr := "No .sap files found\n", exitCode := 1 } := by
  unfold ofFmt
  rw [h]
  rfl

/-- What comes of formatting files. -/
theorem ofFmt_write (h : collectSources lookup path ≠ []) :
    ofFmt lookup style false false path =
      let files := collectSources lookup path
      let differences := files.countP fun file => (verdictOf style file).isDifference
      let failures := files.countP fun file => (verdictOf style file).isFailure
      { stdout :=
          concat (files.map fun file => (verdictOf style file).stdout false false file.1) ++
            "\n✓ " ++ toString differences ++ " file(s) formatted, " ++ toString failures ++
            " error(s)\n"
        stderr := concat (files.map fun file => (verdictOf style file).stderr)
        exitCode := if 0 < failures then 1 else 0
        writes := files.filterMap fun file => (verdictOf style file).write? file.1 } := by
  have hempty : (collectSources lookup path).isEmpty = false := List.isEmpty_eq_false_iff.2 h
  unfold ofFmt
  dsimp only
  rw [hempty]
  simp only [List.map_map, List.countP_map, List.filterMap_map]
  rfl

/-- What comes of looking at files. -/
theorem ofFmt_look {check diff : Bool} (hmode : check = true ∨ diff = true)
    (h : collectSources lookup path ≠ []) :
    ofFmt lookup style check diff path =
      let files := collectSources lookup path
      let stdout := concat (files.map fun file => (verdictOf style file).stdout check diff file.1)
      let stderr := concat (files.map fun file => (verdictOf style file).stderr)
      if 0 < files.countP fun file => (verdictOf style file).isDifference then
        { stdout := stdout
          stderr := stderr ++ "\n" ++ toString files.length ++ " file(s) " ++
            (if diff then "need formatting" else "would be reformatted") ++ "\n"
          exitCode := 1 }
      else if 0 < files.countP fun file => (verdictOf style file).isFailure then
        { stdout := stdout, stderr := stderr, exitCode := 1 }
      else
        { stdout := stdout ++ "✓ " ++ toString files.length ++ " file(s) already formatted\n"
          stderr := stderr } := by
  have hempty : (collectSources lookup path).isEmpty = false := List.isEmpty_eq_false_iff.2 h
  have hlook : (check || diff) = true := by simpa using hmode
  unfold ofFmt
  dsimp only
  rw [hempty, hlook]
  simp only [List.map_map, List.countP_map]
  rfl

end OfFmt

end DeclLang.Outcome
