import DeclLang.Proofs.Command.Outcome
import DeclLang.Proofs.Decimal
import DeclLang.Proofs.FileTree.Source

/-!
# Looking for files that differ

Where files are only looked at, the command tells of those that can be formatted and differ from
their canonical text, with the differences if they are asked for, and of no others.  It succeeds if
there are files and all of them have their canonical form (`check_finds_differences`).

The number in the last line is another matter: it is that of all collected files, and so the number
of those that differ only if all of them do (`reported_count_iff`).
-/

namespace DeclLang

/-! ## The files that differ -/

/-- What formatting would change in a file, if the file can be formatted and is changed by it. -/
def FileContent.changes? (style : Style) (content : FileContent) : Option String :=
  (content.read.toOption.bind fun source => (formatDiff style source).toOption).join

section Changes

variable {style : Style} {content : FileContent} {source text : String}

theorem formatDiff_eq_some_iff :
    formatDiff style source = .ok (some text) ↔
      ∃ canonical, format style source = .ok canonical ∧ source ≠ canonical ∧
        lineDiff source canonical = text := by
  unfold formatDiff
  cases format style source with
  | error e => simp [Except.map]
  | ok canonical => simp [Except.map]

theorem FileContent.changes?_eq_some_iff :
    content.changes? style = some text ↔
      ∃ source, content.read = .ok source ∧ formatDiff style source = .ok (some text) := by
  unfold changes?
  cases content.read with
  | error cause => simp [Except.toOption]
  | ok source =>
    simp only [Except.toOption, Option.bind_some, Except.ok.injEq, exists_eq_left']
    cases formatDiff style source with
    | error e => simp
    | ok change => simp

/-- A file is changed if its verdict says that it differs. -/
theorem FileContent.changes?_eq_verdict (style : Style) (path : String) (content : FileContent) :
    content.changes? style =
      match Outcome.Verdict.ofFile style path content with
      | .differs source canonical => some (lineDiff source canonical)
      | _ => none := by
  unfold changes? Outcome.Verdict.ofFile formatDiff
  cases content.read with
  | error cause => rfl
  | ok source =>
    simp only [Except.toOption, Option.bind_some]
    cases format style source with
    | error e => rfl
    | ok canonical =>
      simp only [Except.map, Option.join_some]
      split
      · rfl
      · rfl

theorem FileContent.changes?_eq_none_iff (path : String) :
    content.changes? style = none ↔
      ¬ (Outcome.Verdict.ofFile style path content).isDifference = true := by
  rw [changes?_eq_verdict style path]
  cases Outcome.Verdict.ofFile style path content with
  | failed report => exact iff_of_true rfl nofun
  | formatted => exact iff_of_true rfl nofun
  | differs source canonical => exact iff_of_false nofun (not_not_intro rfl)

end Changes

namespace Outcome

/-- The files among those collected that formatting would change, each with its differences. -/
def changesAmong (style : Style) (files : List (String × FileContent)) :
    List (String × String) :=
  files.filterMap fun file => (file.2.changes? style).map fun text => (file.1, text)

/-- What is printed of a file that formatting would change. -/
def showChange (check diff : Bool) (change : String × String) : String :=
  (if diff then "--- " ++ change.1 ++ "\n" ++ change.2 ++ "\n" else "") ++
    if check then "Would reformat: " ++ change.1 ++ "\n" else ""

/-- The last line of a command that found files that differ. -/
def countLine (diff : Bool) (count : Nat) : String :=
  "\n" ++ toString count ++ " file(s) " ++
    (if diff then "need formatting" else "would be reformatted") ++ "\n"

section Look

variable {lookup : Lookup} {style : Style} {check diff : Bool} {path : String}
  {files : List (String × FileContent)}

theorem mem_changesAmong {change : String × String} :
    change ∈ changesAmong style files ↔
      ∃ content, (change.1, content) ∈ files ∧ content.changes? style = some change.2 := by
  rw [changesAmong, List.mem_filterMap]
  constructor
  · rintro ⟨file, hfile, hchange⟩
    obtain ⟨text, htext, rfl⟩ := Option.map_eq_some_iff.1 hchange
    exact ⟨file.2, hfile, htext⟩
  · rintro ⟨content, hcontent, htext⟩
    exact ⟨_, hcontent, by rw [htext]; rfl⟩

theorem changesAmong_eq_nil_iff :
    changesAmong style files = [] ↔
      ∀ file ∈ files, ¬ (verdictOf style file).isDifference = true := by
  rw [changesAmong, List.filterMap_eq_nil_iff]
  refine forall₂_congr fun file _ => ?_
  rw [Option.map_eq_none_iff, FileContent.changes?_eq_none_iff file.1]

/-- The changed files stand in the order in which files were collected. -/
theorem changesAmong_sublist (style : Style) (files : List (String × FileContent)) :
    ((changesAmong style files).map Prod.fst).Sublist (files.map Prod.fst) := by
  induction files with
  | nil => exact List.Sublist.slnil
  | cons file more ih =>
    rw [changesAmong, List.filterMap_cons]
    cases file.2.changes? style with
    | none => exact ih.cons file.1
    | some text => exact ih.cons_cons file.1

/-- Each changed file is told of on its own, and nothing is told of the others. -/
theorem concat_stdout (hmode : check = true ∨ diff = true) :
    concat (files.map fun file => (verdictOf style file).stdout check diff file.1) =
      concat ((changesAmong style files).map (showChange check diff)) := by
  refine concat_map_filterMap fun file _ => ?_
  rw [FileContent.changes?_eq_verdict style file.1, verdictOf]
  cases Verdict.ofFile style file.1 file.2 with
  | failed report => rfl
  | formatted => rfl
  | differs source canonical =>
    rcases hmode with rfl | rfl
    · rfl
    · cases check <;> rfl

/-- What comes of looking at files: some of them differ; or none differs, but some fail; or all have
their canonical form. -/
theorem ofFmt_look_cases (hmode : check = true ∨ diff = true)
    (h : collectSources lookup path ≠ []) :
    let files := collectSources lookup path
    let reports := concat (files.map fun file => (verdictOf style file).stderr)
    (changesAmong style files ≠ [] ∧ ofFmt lookup style check diff path =
      { stdout := concat ((changesAmong style files).map (showChange check diff))
        stderr := reports ++ countLine diff files.length
        exitCode := 1 }) ∨
    (changesAmong style files = [] ∧ (∃ file ∈ files, ¬ verdictOf style file = .formatted) ∧
      ofFmt lookup style check diff path = { stderr := reports, exitCode := 1 }) ∨
    (changesAmong style files = [] ∧ (∀ file ∈ files, verdictOf style file = .formatted) ∧
      ofFmt lookup style check diff path =
        { stdout := "✓ " ++ toString files.length ++ " file(s) already formatted\n"
          stderr := reports }) := by
  dsimp only
  rw [ofFmt_look lookup style path hmode h]
  dsimp only
  rw [concat_stdout hmode]
  by_cases hsame : changesAmong style (collectSources lookup path) = []
  · have hcount := List.countP_eq_zero.2 (changesAmong_eq_nil_iff.1 hsame)
    rw [hcount, if_neg (Nat.lt_irrefl 0), hsame]
    split
    · next hfailures =>
      obtain ⟨file, hfile, hverdict⟩ := List.countP_pos_iff.1 hfailures
      refine .inr (.inl ⟨rfl, ⟨file, hfile, ?_⟩, rfl⟩)
      intro hformatted
      rw [hformatted] at hverdict
      cases hverdict
    · next hfailures =>
      refine .inr (.inr ⟨rfl, fun file hfile => ?_, ?_⟩)
      · have hdiffer := changesAmong_eq_nil_iff.1 hsame file hfile
        have hfail := fun hverdict => hfailures (List.countP_pos_iff.2 ⟨file, hfile, hverdict⟩)
        cases hverdict : verdictOf style file with
        | failed report => exact absurd (by rw [hverdict]; rfl) hfail
        | formatted => rfl
        | differs source canonical => exact absurd (by rw [hverdict]; rfl) hdiffer
      · rfl
  · have hcount := mt List.countP_eq_zero.1 (mt changesAmong_eq_nil_iff.2 hsame)
    rw [if_pos (Nat.pos_of_ne_zero hcount)]
    refine .inl ⟨hsame, ?_⟩
    rw [countLine]
    simp only [String.append_assoc]

theorem exitCode_ofFmt_look (hmode : check = true ∨ diff = true) :
    (ofFmt lookup style check diff path).exitCode = 0 ↔
      collectSources lookup path ≠ [] ∧
        ∀ file ∈ collectSources lookup path, verdictOf style file = .formatted := by
  by_cases h : collectSources lookup path = []
  · rw [ofFmt_of_nil lookup style path check diff h]
    exact iff_of_false Nat.one_ne_zero fun hfiles => hfiles.1 h
  · rcases ofFmt_look_cases hmode h with ⟨hchanges, heq⟩ |
      ⟨-, ⟨file, hfile, hverdict⟩, heq⟩ | ⟨-, hverdicts, heq⟩
    · rw [heq]
      refine iff_of_false Nat.one_ne_zero fun hfiles => hchanges ?_
      refine changesAmong_eq_nil_iff.2 fun file hfile => ?_
      rw [hfiles.2 file hfile]
      nofun
    · rw [heq]
      exact iff_of_false Nat.one_ne_zero fun hfiles => hverdict (hfiles.2 file hfile)
    · rw [heq]
      exact iff_of_true rfl ⟨h, hverdicts⟩

theorem stdout_ofFmt_look (hmode : check = true ∨ diff = true) :
    (ofFmt lookup style check diff path).stdout =
      concat ((changesAmong style (collectSources lookup path)).map (showChange check diff)) ++
        if (ofFmt lookup style check diff path).exitCode = 0 then
          "✓ " ++ toString (collectSources lookup path).length ++ " file(s) already formatted\n"
        else "" := by
  by_cases h : collectSources lookup path = []
  · rw [ofFmt_of_nil lookup style path check diff h, h]
    rfl
  · rcases ofFmt_look_cases hmode h with ⟨-, heq⟩ | ⟨hchanges, -, heq⟩ |
      ⟨hchanges, -, heq⟩
    · rw [heq]
      exact String.append_empty.symm
    · rw [heq, hchanges]
      rfl
    · rw [heq, hchanges]
      exact String.empty_append.symm

end Look

/-- The files that formatting would change are those collected ones that can be formatted and differ
from their canonical text. -/
theorem mem_changesAmong_collectSources {root : FileTree} (hroot : root.IsProper) {style : Style}
    {path name text : String} :
    (name, text) ∈ changesAmong style (collectSources root.find? path) ↔
      name ∈ (collectSources root.find? path).map Prod.fst ∧
        ∃ source canonical, readSource root.find? name = .ok source ∧
          format style source = .ok canonical ∧ source ≠ canonical ∧
          formatDiff style source = .ok (some text) := by
  rw [mem_changesAmong]
  constructor
  · rintro ⟨content, hfile, hchange⟩
    obtain ⟨source, hsource, hdiff⟩ := FileContent.changes?_eq_some_iff.1 hchange
    obtain ⟨canonical, hformat, hne, -⟩ := formatDiff_eq_some_iff.1 hdiff
    rw [readSource_of_mem_collectSources hroot hfile]
    exact ⟨List.mem_map_of_mem hfile, source, canonical, hsource, hformat, hne, hdiff⟩
  · rintro ⟨hname, source, canonical, hsource, -, -, hdiff⟩
    obtain ⟨file, hfile, rfl⟩ := List.mem_map.1 hname
    rw [readSource_of_mem_collectSources hroot hfile] at hsource
    exact ⟨file.2, hfile, FileContent.changes?_eq_some_iff.2 ⟨source, hsource, hdiff⟩⟩

end Outcome

/-- Looking for files that differ succeeds if there are source files and all of them can be read and
have their canonical form.  What is printed tells, once each and in the order in which files were
collected, of those that can be formatted and differ from their canonical text: first the
differences, if they are asked for, and then that the file would be changed, if that is asked for.
The line that says that all is well is printed exactly if the command succeeds. -/
theorem check_finds_differences {root : FileTree} (hroot : root.IsProper) (style : Style)
    {check diff : Bool} (hmode : check = true ∨ diff = true) (path : String) :
    let sources := collectSources root.find? path
    let outcome := Outcome.ofFmt root.find? style check diff path
    (outcome.exitCode = 0 ↔ sources ≠ [] ∧ ∀ file ∈ sources, ∃ source,
      readSource root.find? file.1 = .ok source ∧ format style source = .ok source) ∧
    ∃ changed : List (String × String),
      (changed.map Prod.fst).Nodup ∧
      (changed.map Prod.fst).Sublist (sources.map Prod.fst) ∧
      (∀ name text, (name, text) ∈ changed ↔ name ∈ sources.map Prod.fst ∧
        ∃ source canonical, readSource root.find? name = .ok source ∧
          format style source = .ok canonical ∧ source ≠ canonical ∧
          formatDiff style source = .ok (some text)) ∧
      outcome.stdout =
        Outcome.concat (changed.map fun change =>
          (if diff then "--- " ++ change.1 ++ "\n" ++ change.2 ++ "\n" else "") ++
            if check then "Would reformat: " ++ change.1 ++ "\n" else "") ++
        if outcome.exitCode = 0 then
          "✓ " ++ toString sources.length ++ " file(s) already formatted\n"
        else "" := by
  intro sources outcome
  constructor
  · rw [Outcome.exitCode_ofFmt_look hmode]
    refine and_congr_right fun _ => forall₂_congr fun file hfile => ?_
    rw [Outcome.Verdict.ofFile_eq_formatted_iff, readSource_of_mem_collectSources hroot hfile]
  · have hsublist := Outcome.changesAmong_sublist style sources
    exact ⟨Outcome.changesAmong style sources, (nodup_collectSources hroot).sublist hsublist,
      hsublist, fun name text => Outcome.mem_changesAmong_collectSources hroot,
      Outcome.stdout_ofFmt_look hmode⟩

/-- Of a file that differs from its canonical form and one that has it the first is told of, with
its differences. -/
theorem check_finds_differences_one_of_two :
    let root := FileTree.pair (.ofText "var x=1") (.ofText "var y = 1\n")
    let outcome := Outcome.ofFmt root.find? {} true true "src"
    outcome.exitCode ≠ 0 ∧ ∃ changed : List (String × String),
      (∃ text, ("src/a.sap", text) ∈ changed) ∧ (∀ text, ("src/b.sap", text) ∉ changed) ∧
      outcome.stdout = Outcome.concat (changed.map fun change =>
        ("--- " ++ change.1 ++ "\n" ++ change.2 ++ "\n") ++
          ("Would reformat: " ++ change.1 ++ "\n")) := by
  intro root outcome
  have hroot : root.IsProper := FileTree.isProper_pair _ _
  have hsources : collectSources root.find? "src" = [("src/a.sap", .ofText "var x=1"),
      ("src/b.sap", .ofText "var y = 1\n")] := collectSources_pair _ _
  have hfirst : readSource root.find? "src/a.sap" = .ok "var x=1" :=
    (readSource_pair_first _ _).trans (FileContent.read_ofText (Nat.le_of_ble_eq_true rfl))
  have hsecond : readSource root.find? "src/b.sap" = .ok "var y = 1\n" :=
    (readSource_pair_second _ _).trans (FileContent.read_ofText (Nat.le_of_ble_eq_true rfl))
  have hdiffers : format {} "var x=1" = .ok "var x = 1\n" := by decide +kernel
  have hsame : format {} "var y = 1\n" = .ok "var y = 1\n" := by decide +kernel
  obtain ⟨hexit, changed, -, -, hchanged, hstdout⟩ :=
    check_finds_differences hroot {} (.inl rfl : true = true ∨ true = true) "src"
  have hfails : outcome.exitCode ≠ 0 := by
    intro hzero
    obtain ⟨source, hsource, hformat⟩ := (hexit.1 hzero).2 _ (hsources ▸ List.mem_cons_self)
    obtain rfl := Except.ok.inj (hfirst.symm.trans hsource)
    rw [hdiffers] at hformat
    exact absurd (Except.ok.inj hformat) (by decide)
  rw [if_neg hfails, String.append_empty] at hstdout
  refine ⟨hfails, changed, ⟨lineDiff "var x=1" "var x = 1\n", ?_⟩, fun text htext => ?_, hstdout⟩
  · have hdiff := formatDiff_eq_some_iff.2 ⟨_, hdiffers, by decide, rfl⟩
    refine (hchanged _ _).2 ⟨?_, _, _, hfirst, hdiffers, by decide, hdiff⟩
    rw [hsources]
    exact List.mem_cons_self
  · obtain ⟨-, source, canonical, hsource, hformat, hne, -⟩ := (hchanged _ _).1 htext
    obtain rfl := Except.ok.inj (hsecond.symm.trans hsource)
    exact hne (Except.ok.inj (hsame.symm.trans hformat))

/-! ## The number in the last line -/

namespace Outcome

theorem countLine_injective (diff : Bool) : Function.Injective (countLine diff) := by
  intro a b h
  unfold countLine at h
  rw [String.append_left_inj, String.append_left_inj, String.append_left_inj,
    String.append_right_inj] at h
  exact Decimal.toString_injective h

theorem head?_countLine (diff : Bool) (count : Nat) :
    (countLine diff count).toList.head? = some '\n' := by
  unfold countLine
  simp only [String.toList_append, List.append_assoc]
  rfl

section Number

variable {lookup : Lookup} {style : Style} {check diff : Bool} {path : String}
  {files : List (String × FileContent)}

/-- The changed files are as many as the collected ones only if all of these are changed. -/
theorem length_changesAmong_eq_iff :
    (changesAmong style files).length = files.length ↔
      ∀ file ∈ files, (verdictOf style file).isDifference = true := by
  rw [changesAmong, List.length_filterMap_eq_countP, List.countP_eq_length]
  refine forall₂_congr fun file _ => ?_
  rw [Option.isSome_map, Option.isSome_iff_ne_none, Ne, FileContent.changes?_eq_none_iff file.1,
    not_not]

/-- The last line tells of files that differ if there are any, and then gives the number of all
collected files. -/
theorem stderr_ofFmt_look_iff (hmode : check = true ∨ diff = true) {count : Nat} :
    let files := collectSources lookup path
    (ofFmt lookup style check diff path).stderr =
        concat (files.map fun file => (verdictOf style file).stderr) ++ countLine diff count ↔
      changesAmong style files ≠ [] ∧ count = files.length := by
  dsimp only
  have hline : countLine diff count ≠ "" := by
    intro hempty
    have hhead := head?_countLine diff count
    rw [hempty] at hhead
    cases hhead
  by_cases h : collectSources lookup path = []
  · rw [ofFmt_of_nil lookup style path check diff h, h]
    refine iff_of_false (fun hstderr => ?_) fun hchanges => hchanges.1 rfl
    rw [List.map_nil, concat, List.foldr_nil, String.empty_append] at hstderr
    have hhead := head?_countLine diff count
    rw [← hstderr] at hhead
    exact absurd hhead (by decide)
  · rcases ofFmt_look_cases hmode h with ⟨hchanges, heq⟩ | ⟨hchanges, -, heq⟩ |
      ⟨hchanges, -, heq⟩
    · rw [heq, String.append_right_inj, (countLine_injective diff).eq_iff]
      exact ⟨fun hcount => ⟨hchanges, hcount.symm⟩, fun hcount => hcount.2.symm⟩
    · rw [heq]
      exact iff_of_false (fun hstderr => hline (String.append_eq_left_iff.1 hstderr.symm))
        fun hcount => hcount.1 hchanges
    · rw [heq]
      exact iff_of_false (fun hstderr => hline (String.append_eq_left_iff.1 hstderr.symm))
        fun hcount => hcount.1 hchanges

end Number

end Outcome

/-- The last line of a command that found files that differ gives the number of all collected files,
whether they differ or not.  It is the number of those that differ, each of which was told of
before, only if every collected file can be formatted and differs from its canonical text. -/
theorem reported_count_iff {root : FileTree} (hroot : root.IsProper) (style : Style)
    {check diff : Bool} (hmode : check = true ∨ diff = true) (path : String) :
    let sources := collectSources root.find? path
    let changed := Outcome.changesAmong style sources
    let outcome := Outcome.ofFmt root.find? style check diff path
    let reports := Outcome.concat (sources.map fun file => (Outcome.verdictOf style file).stderr)
    (∀ count, outcome.stderr = reports ++ Outcome.countLine diff count ↔
      changed ≠ [] ∧ count = sources.length) ∧
    (∀ name text, (name, text) ∈ changed ↔ name ∈ sources.map Prod.fst ∧
      ∃ source canonical, readSource root.find? name = .ok source ∧
        format style source = .ok canonical ∧ source ≠ canonical ∧
        formatDiff style source = .ok (some text)) ∧
    (changed ≠ [] →
      outcome.stdout = Outcome.concat (changed.map (Outcome.showChange check diff))) ∧
    (outcome.stderr = reports ++ Outcome.countLine diff changed.length ↔
      sources ≠ [] ∧ ∀ file ∈ sources, ∃ source canonical,
        readSource root.find? file.1 = .ok source ∧ format style source = .ok canonical ∧
          source ≠ canonical) := by
  intro sources changed outcome reports
  have hline : ∀ count, outcome.stderr = reports ++ Outcome.countLine diff count ↔
      changed ≠ [] ∧ count = sources.length := fun count => Outcome.stderr_ofFmt_look_iff hmode
  have hspec : (∀ file ∈ sources, (Outcome.verdictOf style file).isDifference = true) ↔
      ∀ file ∈ sources, ∃ source canonical, readSource root.find? file.1 = .ok source ∧
        format style source = .ok canonical ∧ source ≠ canonical := by
    refine forall₂_congr fun file hfile => ?_
    rw [readSource_of_mem_collectSources hroot hfile, Outcome.Verdict.isDifference_iff]
    simp only [Outcome.Verdict.ofFile_eq_differs_iff]
  refine ⟨hline, fun name text => Outcome.mem_changesAmong_collectSources hroot,
    fun hchanged => ?_, ?_⟩
  · have hsources : sources ≠ [] := fun hnil => hchanged (congrArg _ hnil)
    rcases Outcome.ofFmt_look_cases hmode hsources with ⟨-, heq⟩ | ⟨hnone, -⟩ | ⟨hnone, -⟩
    · exact congrArg Outcome.stdout heq
    · exact absurd hnone hchanged
    · exact absurd hnone hchanged
  · rw [hline, ← hspec, ← Outcome.length_changesAmong_eq_iff]
    refine and_congr_left fun hlength => ?_
    rw [← List.length_pos_iff, ← List.length_pos_iff, hlength]

/-- If both files of a directory differ from their canonical form, their number is right. -/
theorem reported_count_iff_both :
    let root := FileTree.pair (.ofText "var x=1") (.ofText "var y=1")
    let sources := collectSources root.find? "src"
    (Outcome.ofFmt root.find? {} true false "src").stderr =
      Outcome.concat (sources.map fun file => (Outcome.verdictOf {} file).stderr) ++
        Outcome.countLine false (Outcome.changesAmong {} sources).length := by
  intro root sources
  have hroot : root.IsProper := FileTree.isProper_pair _ _
  have hsources : sources = [("src/a.sap", .ofText "var x=1"), ("src/b.sap", .ofText "var y=1")] :=
    collectSources_pair _ _
  have hfirst : readSource root.find? "src/a.sap" = .ok "var x=1" :=
    (readSource_pair_first _ _).trans (FileContent.read_ofText (Nat.le_of_ble_eq_true rfl))
  have hsecond : readSource root.find? "src/b.sap" = .ok "var y=1" :=
    (readSource_pair_second _ _).trans (FileContent.read_ofText (Nat.le_of_ble_eq_true rfl))
  obtain ⟨-, -, -, hcount⟩ :=
    reported_count_iff hroot {} (.inl rfl : true = true ∨ false = true) "src"
  refine hcount.2 ?_
  change sources ≠ [] ∧ ∀ file ∈ sources, _
  rw [hsources]
  refine ⟨List.cons_ne_nil _ _, List.forall_mem_cons.2 ⟨?_, List.forall_mem_singleton.2 ?_⟩⟩
  · exact ⟨_, "var x = 1\n", hfirst, by decide +kernel, by decide⟩
  · exact ⟨_, "var y = 1\n", hsecond, by decide +kernel, by decide⟩

/-- One of the two files of a directory differs from its canonical form, and the last line counts
two. -/
theorem reported_count_clean_file :
    let root := FileTree.pair (.ofText "var x=1") (.ofText "var y = 1\n")
    let outcome := Outcome.ofFmt root.find? {} true false "src"
    (collectSources root.find? "src").countP
        (fun file => (Outcome.verdictOf {} file).isDifference) = 1 ∧
      outcome.stdout = "Would reformat: src/a.sap\n" ∧
      outcome.stderr = "\n2 file(s) would be reformatted\n" := by
  intro root outcome
  have hsources : collectSources root.find? "src" = [("src/a.sap", .ofText "var x=1"),
      ("src/b.sap", .ofText "var y = 1\n")] := collectSources_pair _ _
  have hfirst : Outcome.verdictOf {} ("src/a.sap", .ofText "var x=1") =
      .differs "var x=1" "var x = 1\n" :=
    Outcome.Verdict.ofFile_eq_differs_iff.2
      ⟨FileContent.read_ofText (Nat.le_of_ble_eq_true rfl), by decide +kernel, by decide⟩
  have hsecond : Outcome.verdictOf {} ("src/b.sap", .ofText "var y = 1\n") = .formatted :=
    Outcome.Verdict.ofFile_eq_formatted_iff.2 ⟨"var y = 1\n",
      FileContent.read_ofText (Nat.le_of_ble_eq_true rfl), by decide +kernel⟩
  have hnonempty : collectSources root.find? "src" ≠ [] := hsources ▸ List.cons_ne_nil _ _
  have houtcome := Outcome.ofFmt_look root.find? {} "src"
    (.inl rfl : true = true ∨ false = true) hnonempty
  simp only [hsources, List.map_cons, List.map_nil, List.countP_cons, List.countP_nil, hfirst,
    hsecond] at houtcome
  refine ⟨?_, ?_, ?_⟩
  · simp only [hsources, List.countP_cons, List.countP_nil, hfirst, hsecond]
    rfl
  · exact (congrArg Outcome.stdout houtcome).trans (by decide +kernel)
  · exact (congrArg Outcome.stderr houtcome).trans (by decide +kernel)

end DeclLang
