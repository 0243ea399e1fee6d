import DeclLang.Proofs.Command.Outcome
import DeclLang.Proofs.FileTree.Source

/-!
# Formatting rewrites the files that can be formatted

What formatting does to a tree is one change of the contents of its files: each collected file is
left with its canonical text if it can be formatted (`contentAfter_of_mem_collectSources`), and
every other file with what it had (`contentAfter_of_not_isFormattable`).  From the tree after it the
same files are collected with their new contents (`collectSources_treeAfter`), and canonical text is
formatted already, so formatting the tree again writes nothing.

It makes no difference that all files are looked at before the first is written: the collected files
stand apart, so each is still what it was when its turn comes (`foldl_formatFile`).
`formatting_rewrites_sources` puts this together with the verdict of the command.
-/

namespace DeclLang

open FileTree

/-- The tree after a command has written its files. -/
def Outcome.treeAfter (outcome : Outcome) (root : FileTree) : FileTree :=
  outcome.writes.foldl (fun tree w => tree.write w.1 (.ofText w.2)) root

theorem Command.run_eq (root : FileTree) (command : Command) :
    command.run root =
      (command.outcome root.find?, (command.outcome root.find?).treeAfter root) := rfl

namespace Outcome

/-! ## What is written -/

section Writes

variable {lookup : Lookup} {style : Style} {path : String}

theorem writes_ofFmt :
    (ofFmt lookup style false false path).writes =
      (collectSources lookup path).filterMap fun file =>
        (verdictOf style file).write? file.1 := by
  by_cases h : collectSources lookup path = []
  · rw [ofFmt_of_nil lookup style path false false h, h]
    rfl
  · rw [ofFmt_write lookup style path h]

/-- Looking at files writes none. -/
theorem writes_ofFmt_look {check diff : Bool} (hmode : check = true ∨ diff = true) :
    (ofFmt lookup style check diff path).writes = [] := by
  by_cases h : collectSources lookup path = []
  · rw [ofFmt_of_nil lookup style path check diff h]
  · rw [ofFmt_look lookup style path hmode h]
    dsimp only
    split
    · rfl
    · split
      · rfl
      · rfl

/-- What is written is the canonical text of a file that differs from it. -/
theorem mem_writes_ofFmt {written : String × String} :
    written ∈ (ofFmt lookup style false false path).writes ↔
      ∃ file ∈ collectSources lookup path, file.1 = written.1 ∧
        ∃ source, verdictOf style file = .differs source written.2 := by
  rw [writes_ofFmt, List.mem_filterMap]
  refine exists_congr fun file => and_congr_right fun _ => ?_
  cases verdictOf style file with
  | failed report => simp [Verdict.write?]
  | formatted => simp [Verdict.write?]
  | differs source canonical => simp [Verdict.write?, Prod.ext_iff]

theorem exitCode_ofFmt :
    (ofFmt lookup style false false path).exitCode = 0 ↔
      collectSources lookup path ≠ [] ∧
        ∀ file ∈ collectSources lookup path, file.2.IsFormattable style := by
  by_cases h : collectSources lookup path = []
  · rw [ofFmt_of_nil lookup style path false false h]
    exact iff_of_false Nat.one_ne_zero fun hfiles => hfiles.1 h
  · rw [ofFmt_write lookup style path h]
    simp only [ite_eq_right_iff, Nat.one_ne_zero, imp_false, List.countP_pos_iff, not_exists,
      not_and, Verdict.isFailure_ofFile_iff, not_not, h, ne_eq, not_false_eq_true, true_and]

/-- If no file differs, then there is nothing to say of the files but how many of them failed. -/
theorem stdout_ofFmt_of_not_isDifference (h : collectSources lookup path ≠ [])
    (hsame : ∀ file ∈ collectSources lookup path, ¬ (verdictOf style file).isDifference = true) :
    ∃ errors : Nat, (ofFmt lookup style false false path).stdout =
      "\n✓ 0 file(s) formatted, " ++ toString errors ++ " error(s)\n" := by
  have hnothing : ∀ file ∈ collectSources lookup path,
      (verdictOf style file).stdout false false file.1 = "" := by
    intro file hfile
    have hfile := hsame file hfile
    cases hverdict : verdictOf style file with
    | failed report => rfl
    | formatted => rfl
    | differs source canonical => exact absurd (Verdict.isDifference_iff.2 ⟨_, _, hverdict⟩) hfile
  refine ⟨(collectSources lookup path).countP fun file => (verdictOf style file).isFailure, ?_⟩
  rw [ofFmt_write lookup style path h]
  dsimp only
  rw [List.countP_eq_zero.2 hsame, concat_map_of_forall_eq_empty hnothing]
  rfl

end Writes

/-! ## The tree after it -/

section Tree

variable {root : FileTree} {style : Style} {path : String}

theorem treeAfter_eq_mapContents (outcome : Outcome) (root : FileTree) :
    outcome.treeAfter root = root.mapContents (root.contentAfter outcome.writes) :=
  foldl_write root outcome.writes

/-- What is written to the location of a collected file is the canonical text of this file, by
whichever path it is written. -/
theorem verdictOf_of_mem_writes (hroot : root.IsProper) {written : String × String}
    (h : written ∈ (ofFmt root.find? style false false path).writes) {other : String}
    {content : FileContent} (hother : root.find? other = .ok (.file content))
    (hplace : root.locate? written.1 = root.locate? other) :
    ∃ source, content.read = .ok source ∧ format style source = .ok written.2 ∧
      source ≠ written.2 := by
  obtain ⟨file, hfile, hpath, source, hverdict⟩ := mem_writes_ofFmt.1 h
  rw [← hpath] at hplace
  have hcontent := find?_eq_of_locate?_eq (find?_of_mem_collectSources hroot hfile) hother hplace
  rw [FileTree.file.injEq] at hcontent
  rw [verdictOf, Verdict.ofFile_eq_differs_iff, hcontent] at hverdict
  exact ⟨source, hverdict⟩

/-- A collected file is left with its canonical text, or with its contents if it has none. -/
theorem contentAfter_of_mem_collectSources (hroot : root.IsProper) {file : String × FileContent}
    (hfile : file ∈ collectSources root.find? path) {place : List String}
    (hplace : root.locate? file.1 = some place) :
    root.contentAfter (ofFmt root.find? style false false path).writes place file.2 =
      file.2.formatted style := by
  have hfound := find?_of_mem_collectSources hroot hfile
  by_cases hdiffers : (verdictOf style file).isDifference = true
  · obtain ⟨source, canonical, hverdict⟩ := Verdict.isDifference_iff.1 hdiffers
    obtain ⟨hread, hformat, -⟩ := Verdict.ofFile_eq_differs_iff.1 hverdict
    rw [FileContent.formatted_of_format hread hformat]
    refine contentAfter_of_mem (mem_writes_ofFmt.2 ⟨file, hfile, rfl, source, hverdict⟩) hplace ?_
    intro written hwritten hwrittenPlace
    obtain ⟨source', hread', hformat', -⟩ :=
      verdictOf_of_mem_writes hroot hwritten hfound (hwrittenPlace.trans hplace.symm)
    rw [hread] at hread'
    obtain rfl := Except.ok.inj hread'
    rw [hformat] at hformat'
    exact (Except.ok.inj hformat').symm
  · rw [Verdict.formatted_of_not_isDifference hdiffers]
    refine contentAfter_eq_self fun written hwritten hwrittenPlace => ?_
    obtain ⟨source, hspec⟩ :=
      verdictOf_of_mem_writes hroot hwritten hfound (hwrittenPlace.trans hplace.symm)
    exact absurd (Verdict.isDifference_iff.2
      ⟨source, written.2, Verdict.ofFile_eq_differs_iff.2 hspec⟩) hdiffers

/-- A file at which nothing that can be formatted was collected keeps its contents. -/
theorem contentAfter_of_not_isFormattable {place : List String}
    (h : ∀ file ∈ collectSources root.find? path, root.locate? file.1 = some place →
      ¬ file.2.IsFormattable style) (content : FileContent) :
    root.contentAfter (ofFmt root.find? style false false path).writes place content = content := by
  refine contentAfter_eq_self fun written hwritten hwrittenPlace => ?_
  obtain ⟨file, hfile, hpath, source, hverdict⟩ := mem_writes_ofFmt.1 hwritten
  obtain ⟨hread, hformat, -⟩ := Verdict.ofFile_eq_differs_iff.1 hverdict
  rw [← hpath] at hwrittenPlace
  exact absurd ⟨source, written.2, hread, hformat⟩ (h file hfile hwrittenPlace)

/-- From the tree after formatting, the same paths are collected, with what the files were left
with. -/
theorem collectSources_treeAfter (hroot : root.IsProper) :
    collectSources ((ofFmt root.find? style false false path).treeAfter root).find? path =
      (collectSources root.find? path).map fun file => (file.1, file.2.formatted style) := by
  rw [treeAfter_eq_mapContents]
  exact collectSources_mapContents hroot fun file hfile place hplace =>
    contentAfter_of_mem_collectSources hroot hfile hplace

/-- A collected file is left with its canonical text, if it can be formatted. -/
theorem find?_treeAfter_of_mem_collectSources (hroot : root.IsProper)
    {file : String × FileContent} (hfile : file ∈ collectSources root.find? path) :
    ((ofFmt root.find? style false false path).treeAfter root).find? file.1 =
      .ok (.file (file.2.formatted style)) := by
  have hfound := find?_of_mem_collectSources hroot hfile
  obtain ⟨place, hplace, -⟩ := exists_locate?_of_find? hfound
  rw [treeAfter_eq_mapContents, find?_mapContents_eq_file_iff]
  exact ⟨place, file.2, hfound, hplace, contentAfter_of_mem_collectSources hroot hfile hplace⟩

/-- A file is left alone if nothing that can be formatted was collected at its location. -/
theorem find?_treeAfter_of_not_isFormattable {other : String} {content : FileContent}
    (hother : root.find? other = .ok (.file content))
    (h : ∀ file ∈ collectSources root.find? path, root.locate? file.1 = root.locate? other →
      ¬ file.2.IsFormattable style) :
    ((ofFmt root.find? style false false path).treeAfter root).find? other =
      .ok (.file content) := by
  obtain ⟨place, hplace, -⟩ := exists_locate?_of_find? hother
  rw [treeAfter_eq_mapContents, find?_mapContents_eq_file_iff]
  rw [hplace] at h
  exact ⟨place, content, hother, hplace, contentAfter_of_not_isFormattable h content⟩

/-- No command makes or removes a file. -/
theorem exists_file_treeAfter_iff (outcome : Outcome) {other : String} :
    (∃ content, (outcome.treeAfter root).find? other = .ok (.file content)) ↔
      ∃ content, root.find? other = .ok (.file content) := by
  simp only [treeAfter_eq_mapContents, find?_mapContents_eq_file_iff]
  constructor
  · rintro ⟨content, place, old, hold, -⟩
    exact ⟨old, hold⟩
  · rintro ⟨old, hold⟩
    obtain ⟨place, hplace, -⟩ := exists_locate?_of_find? hold
    exact ⟨_, place, old, hold, hplace, rfl⟩

/-- Formatting changes nothing if no collected file differs from its canonical form. -/
theorem treeAfter_of_not_isDifference
    (h : ∀ file ∈ collectSources root.find? path,
      ¬ (verdictOf style file).isDifference = true) :
    (ofFmt root.find? style false false path).treeAfter root = root := by
  have hwrites : (ofFmt root.find? style false false path).writes = [] := by
    refine List.eq_nil_iff_forall_not_mem.2 fun written hwritten => ?_
    obtain ⟨file, hfile, -, source, hverdict⟩ := mem_writes_ofFmt.1 hwritten
    exact h file hfile (Verdict.isDifference_iff.2 ⟨_, _, hverdict⟩)
  rw [treeAfter, hwrites]
  rfl

/-- After formatting, no collected file differs from its canonical form. -/
theorem not_isDifference_treeAfter (hroot : root.IsProper) {file : String × FileContent}
    (hfile : file ∈ collectSources
      ((ofFmt root.find? style false false path).treeAfter root).find? path) :
    ¬ (verdictOf style file).isDifference = true := by
  rw [collectSources_treeAfter hroot] at hfile
  obtain ⟨old, -, rfl⟩ := List.mem_map.1 hfile
  exact Verdict.not_isDifference_ofFile_formatted style old.1 old.2

end Tree

end Outcome

/-- Every command leaves a proper tree proper. -/
theorem Command.isProper_run {root : FileTree} (hroot : root.IsProper) (command : Command) :
    (command.run root).2.IsProper := by
  rw [run_eq, Outcome.treeAfter_eq_mapContents]
  exact hroot.mapContents _

/-! ## One file after the other -/

/-- Formats the file at a path, as the tree stands. -/
def FileTree.formatFile (style : Style) (tree : FileTree) (path : String) : FileTree :=
  match readSource tree.find? path with
  | .error _ => tree
  | .ok source =>
    match format style source with
    | .error _ => tree
    | .ok canonical => if source = canonical then tree else tree.write path (.ofText canonical)

section FormatFile

variable {style : Style}

theorem FileTree.formatFile_eq {tree : FileTree} {path : String} {content : FileContent}
    (h : tree.find? path = .ok (file content)) :
    tree.formatFile style path =
      match (Outcome.verdictOf style (path, content)).write? path with
      | some written => tree.write written.1 (.ofText written.2)
      | none => tree := by
  have hread : readSource tree.find? path = content.read := by rw [readSource, h]
  rw [formatFile, hread, Outcome.verdictOf, Outcome.Verdict.ofFile]
  cases content.read with
  | error cause => rfl
  | ok source =>
    dsimp only
    cases format style source with
    | error cause => rfl
    | ok canonical =>
      dsimp only
      split
      · rfl
      · rfl

/-- Formatting files that stand apart, one after the other, comes to writing what they are to be
written with: none of them is changed before it is read. -/
theorem foldl_formatFile {tree : FileTree} {files : List (String × FileContent)}
    (hfound : ∀ file ∈ files, tree.find? file.1 = .ok (.file file.2))
    (hapart : files.Pairwise fun a b => tree.locate? a.1 ≠ tree.locate? b.1) :
    (files.map Prod.fst).foldl (FileTree.formatFile style) tree =
      (files.filterMap fun file => (Outcome.verdictOf style file).write? file.1).foldl
        (fun tree written => tree.write written.1 (.ofText written.2)) tree := by
  induction files generalizing tree with
  | nil => rfl
  | cons file more ih =>
    obtain ⟨hfile, hmore⟩ := List.forall_mem_cons.1 hfound
    obtain ⟨hhead, htail⟩ := List.pairwise_cons.1 hapart
    rw [List.map_cons, List.foldl_cons, formatFile_eq hfile, List.filterMap_cons]
    cases hverdict : Outcome.verdictOf style file with
    | failed report => exact ih hmore htail
    | formatted => exact ih hmore htail
    | differs source canonical =>
      refine ih (fun other hother => ?_) ?_
      · exact find?_write_of_ne (hmore other hother) (hhead other hother)
      · simp only [Outcome.Verdict.write?, locate?_write]
        exact htail

/-- The tree after formatting is what formatting its files one after the other makes of it. -/
theorem Outcome.treeAfter_eq_foldl {root : FileTree} (hroot : root.IsProper) (path : String) :
    (ofFmt root.find? style false false path).treeAfter root =
      ((collectSources root.find? path).map Prod.fst).foldl (FileTree.formatFile style) root := by
  rw [treeAfter, writes_ofFmt]
  exact (foldl_formatFile (fun file hfile => find?_of_mem_collectSources hroot hfile)
    (pairwise_locate?_collectSources hroot)).symm

end FormatFile

/-- Formatting the source files that a path stands for, one after the other, leaves each of them
that can be formatted with its canonical text, and every other file with the contents that it had;
no file comes or goes.  It succeeds if there are source files and all of them can be formatted.
Formatting once more writes nothing and says so, and looking for differences writes nothing
either. -/
theorem formatting_rewrites_sources {root : FileTree} (hroot : root.IsProper) (style : Style)
    (path : String) :
    let sources := collectSources root.find? path
    let outcome := Outcome.ofFmt root.find? style false false path
    let after := outcome.treeAfter root
    let again := Outcome.ofFmt after.find? style false false path
    after = (sources.map Prod.fst).foldl (FileTree.formatFile style) root ∧
    (∀ file ∈ sources, ∀ source canonical, readSource root.find? file.1 = .ok source →
      format style source = .ok canonical →
        after.find? file.1 = .ok (.file (.ofText canonical))) ∧
    (∀ other content, root.find? other = .ok (.file content) →
      (∀ file ∈ sources, root.locate? file.1 = root.locate? other →
        ¬ ∃ source canonical, readSource root.find? file.1 = .ok source ∧
          format style source = .ok canonical) →
      after.find? other = .ok (.file content)) ∧
    (∀ other, (∃ content, after.find? other = .ok (.file content)) ↔
      ∃ content, root.find? other = .ok (.file content)) ∧
    (outcome.exitCode = 0 ↔ sources ≠ [] ∧ ∀ file ∈ sources, ∃ source canonical,
      readSource root.find? file.1 = .ok source ∧ format style source = .ok canonical) ∧
    again.treeAfter after = after ∧
    (sources ≠ [] → ∃ errors : Nat,
      again.stdout = "\n✓ 0 file(s) formatted, " ++ toString errors ++ " error(s)\n") ∧
    ∀ check diff, check = true ∨ diff = true →
      (Outcome.ofFmt root.find? style check diff path).treeAfter root = root := by
  intro sources outcome after again
  have hread : ∀ file ∈ sources, readSource root.find? file.1 = file.2.read :=
    fun file hfile => readSource_of_mem_collectSources hroot hfile
  have hsame : ∀ file ∈ collectSources after.find? path,
      ¬ (Outcome.verdictOf style file).isDifference = true :=
    fun file hfile => Outcome.not_isDifference_treeAfter hroot hfile
  refine ⟨Outcome.treeAfter_eq_foldl hroot path, ?_, ?_,
    fun other => Outcome.exists_file_treeAfter_iff outcome, ?_,
    Outcome.treeAfter_of_not_isDifference hsame, ?_, ?_⟩
  · intro file hfile source canonical hsource hformat
    rw [hread file hfile] at hsource
    rw [← FileContent.formatted_of_format hsource hformat]
    exact Outcome.find?_treeAfter_of_mem_collectSources hroot hfile
  · intro other content hother hothers
    refine Outcome.find?_treeAfter_of_not_isFormattable hother fun file hfile hplace => ?_
    have hnot := hothers file hfile hplace
    rwa [hread file hfile] at hnot
  · rw [Outcome.exitCode_ofFmt]
    refine and_congr_right fun _ => forall₂_congr fun file hfile => ?_
    rw [hread file hfile]
    rfl
  · intro hsources
    refine Outcome.stdout_ofFmt_of_not_isDifference ?_ hsame
    rw [Outcome.collectSources_treeAfter hroot]
    exact mt List.map_eq_nil_iff.1 hsources
  · intro check diff hmode
    rw [Outcome.treeAfter, Outcome.writes_ofFmt_look hmode]
    rfl

/-- Of a file that differs from its canonical form and one that is malformed the first is written
and the second is kept, and a second run writes nothing. -/
theorem formatting_rewrites_sources_mixed :
    let root := pair (.ofText "var x=1") (.ofText "var =")
    let after := (Outcome.ofFmt root.find? {} false false "src").treeAfter root
    after.find? "src/a.sap" = .ok (.file (.ofText "var x = 1\n")) ∧
      after.find? "src/b.sap" = .ok (.file (.ofText "var =")) ∧
      (Outcome.ofFmt after.find? {} false false "src").treeAfter after = after := by
  intro root after
  have hsources : collectSources root.find? "src" =
      [("src/a.sap", .ofText "var x=1"), ("src/b.sap", .ofText "var =")] := collectSources_pair _ _
  have hfirst : (FileContent.ofText "var x=1").read = .ok "var x=1" :=
    FileContent.read_ofText (Nat.le_of_ble_eq_true rfl)
  have hsecond : (FileContent.ofText "var =").read = .ok "var =" :=
    FileContent.read_ofText (Nat.le_of_ble_eq_true rfl)
  have hmalformed : (format {} "var =").toBool = false := by decide +kernel
  have hroot : root.IsProper := isProper_pair _ _
  obtain ⟨-, hformatted, hothers, -, -, hagain, -⟩ := formatting_rewrites_sources hroot {} "src"
  rw [hsources] at hformatted hothers
  refine ⟨?_, ?_, hagain⟩
  · exact hformatted _ List.mem_cons_self "var x=1" "var x = 1\n" hfirst (by decide +kernel)
  · refine hothers "src/b.sap" _ rfl (List.forall_mem_cons.2 ⟨?_, List.forall_mem_singleton.2 ?_⟩)
    · exact fun hplace => absurd hplace (by decide +kernel)
    · rintro - ⟨source, canonical, hsource, hformat⟩
      obtain rfl := Except.ok.inj (hsecond.symm.trans hsource)
      rw [hformat] at hmalformed
      cases hmalformed

end DeclLang
