import DeclLang.Proofs.Command.Arguments
import DeclLang.Proofs.Command.Outcome
import DeclLang.Proofs.Grammar.AllErrors

/-!
# Showing files, each on its own

A file either can be shown, and then it adds its tree in the form that is asked for
(`Outcome.rendering?`), or it adds a report (`Outcome.failure?`), and which of the two it is and
what it adds depends on this file alone.  Of the other files only one thing matters to it: a file
that is not the only one has its path above it.  `files_shown_independently` says what comes of any
list of files in terms of these.
-/

namespace DeclLang

/-! ## Texts of whole lines -/

/-- Whether a text ends with a line feed. -/
def EndsLine (text : String) : Prop := text.toList.getLast? = some '\n'

theorem EndsLine.append {text : String} (before : String) (h : EndsLine text) :
    EndsLine (before ++ text) := by
  rw [EndsLine, String.toList_append, List.getLast?_append, h]
  rfl

theorem Lines.endsLine_join {lines : List String} (h : lines ≠ []) : EndsLine (join lines) := by
  rw [EndsLine, join, String.toList_ofList]
  rw [← List.dropLast_append_getLast h, List.flatMap_append, List.flatMap_singleton,
    ← List.append_assoc, List.getLast?_concat]

theorem SyntaxError.endsLine_report (fileName source : String) (e : SyntaxError) :
    EndsLine (e.report fileName source) := Lines.endsLine_join (List.cons_ne_nil _ _)

theorem SyntaxError.endsLine_reports (fileName source : String) {errors : List SyntaxError}
    (h : errors ≠ []) : EndsLine (reports fileName source errors) := by
  unfold reports
  induction errors with
  | nil => exact absurd rfl h
  | cons e more ih =>
    rw [List.map_cons]
    cases more with
    | nil =>
      rw [List.map_nil, String.intercalate_singleton]
      exact endsLine_report fileName source e
    | cons e' more =>
      rw [List.map_cons, String.intercalate_cons_cons]
      exact (ih (List.cons_ne_nil _ _)).append _

theorem renderSource_errors_ne_nil {style : Style} {emit : Emit} {recover : Bool} {source : String}
    {errors : List SyntaxError} (h : renderSource style emit recover source = .error errors) :
    errors ≠ [] := by
  unfold renderSource at h
  cases recover with
  | true =>
    cases hparse : parseAll source with
    | ok file =>
      rw [hparse] at h
      cases h
    | error all =>
      rw [hparse] at h
      obtain rfl := Except.error.inj h
      intro hnil
      obtain ⟨file, hfile⟩ := Feed.errorList_eq_nil_iff.1 ((congrArg errorList hparse).trans hnil)
      cases hparse.symm.trans hfile
  | false =>
    cases hparse : parse source with
    | ok file =>
      rw [hparse] at h
      cases h
    | error e =>
      rw [hparse] at h
      obtain rfl := Except.error.inj h
      exact List.cons_ne_nil _ _

namespace Outcome

/-! ## What a file adds -/

section Shown

variable (lookup : Lookup) (style : Style) (emit : Emit) (recover : Bool)

/-- The tree of a file in the form that is asked for, if the file can be read and parsed. -/
def rendering? (path : String) : Option String :=
  (readSource lookup path).toOption.bind fun source =>
    (renderSource style emit recover source).toOption

/-- What is said about a file that cannot be shown: why it cannot be read, or the errors in it. -/
def failure? (path : String) : Option String :=
  match readSource lookup path with
  | .error cause => some (cause.message path ++ "\n")
  | .ok source =>
    match renderSource style emit recover source with
    | .error errors => some (SyntaxError.reports path source errors)
    | .ok _ => none

/-- The files that can be shown, each with what is shown of it. -/
def renderings (files : List String) : List (String × String) :=
  files.filterMap fun path =>
    (rendering? lookup style emit recover path).map fun rendered => (path, rendered)

/-- What is said about the files that cannot be shown. -/
def failures (files : List String) : List String :=
  files.filterMap (failure? lookup style emit recover)

/-- A file is either shown or fails, and in both cases nothing else comes of it. -/
theorem showFile_cases (path : String) :
    (∃ rendered, rendering? lookup style emit recover path = some rendered ∧
      failure? lookup style emit recover path = none ∧
      ∀ titled, showFile lookup style emit recover titled path =
        ⟨(if titled then "==> " ++ path ++ " <==\n" else "") ++ rendered, "", false⟩) ∨
    ∃ report, rendering? lookup style emit recover path = none ∧
      failure? lookup style emit recover path = some report ∧ EndsLine report ∧
      ∀ titled, showFile lookup style emit recover titled path = ⟨"", report, true⟩ := by
  unfold rendering? failure? showFile
  cases readSource lookup path with
  | error cause => exact .inr ⟨_, rfl, rfl, EndsLine.append _ rfl, fun _ => rfl⟩
  | ok source =>
    dsimp only [Except.toOption, Option.bind_some]
    cases hrender : renderSource style emit recover source with
    | error errors =>
      have hreports := SyntaxError.endsLine_reports path source (renderSource_errors_ne_nil hrender)
      exact .inr ⟨_, rfl, rfl, hreports, fun _ => rfl⟩
    | ok rendered => exact .inl ⟨_, rfl, rfl, fun _ => rfl⟩

theorem stdout_showFile (titled : Bool) (path : String) :
    (showFile lookup style emit recover titled path).stdout =
      ((rendering? lookup style emit recover path).map fun rendered =>
        (if titled then "==> " ++ path ++ " <==\n" else "") ++ rendered).getD "" := by
  rcases showFile_cases lookup style emit recover path with
    ⟨rendered, hrendering, -, hshow⟩ | ⟨report, hrendering, -, -, hshow⟩
  · rw [hshow, hrendering]
    rfl
  · rw [hshow, hrendering]
    rfl

theorem stderr_showFile (titled : Bool) (path : String) :
    (showFile lookup style emit recover titled path).stderr =
      (failure? lookup style emit recover path).getD "" := by
  rcases showFile_cases lookup style emit recover path with
    ⟨rendered, -, hfailure, hshow⟩ | ⟨report, -, hfailure, -, hshow⟩
  · rw [hshow, hfailure]
    rfl
  · rw [hshow, hfailure]
    rfl

theorem failed_showFile (titled : Bool) (path : String) :
    (showFile lookup style emit recover titled path).failed =
      (failure? lookup style emit recover path).isSome := by
  rcases showFile_cases lookup style emit recover path with
    ⟨rendered, -, hfailure, hshow⟩ | ⟨report, -, hfailure, -, hshow⟩
  · rw [hshow, hfailure]
    rfl
  · rw [hshow, hfailure]
    rfl

theorem concat_stdout_showFile (titled : Bool) (files : List String) :
    concat (files.map fun path => (showFile lookup style emit recover titled path).stdout) =
      concat ((renderings lookup style emit recover files).map fun file =>
        (if titled then "==> " ++ file.1 ++ " <==\n" else "") ++ file.2) := by
  refine concat_map_filterMap fun path _ => ?_
  rw [stdout_showFile, Option.map_map]
  rfl

theorem concat_stderr_showFile (titled : Bool) (files : List String) :
    concat (files.map fun path => (showFile lookup style emit recover titled path).stderr) =
      concat (failures lookup style emit recover files) := by
  rw [← List.map_id (failures lookup style emit recover files)]
  refine concat_map_filterMap fun path _ => ?_
  rw [stderr_showFile, Option.map_id]
  rfl

theorem countP_failed_showFile (titled : Bool) (files : List String) :
    (files.map (showFile lookup style emit recover titled)).countP Shown.failed =
      (failures lookup style emit recover files).length := by
  rw [failures, List.countP_map, List.length_filterMap_eq_countP]
  refine List.countP_congr fun path _ => ?_
  rw [Function.comp_apply, failed_showFile]

/-- What comes of showing files. -/
theorem ofParse_eq (files : List String) :
    ofParse lookup style emit recover files =
      { stdout := concat ((renderings lookup style emit recover files).map fun file =>
          (if 1 < files.length then "==> " ++ file.1 ++ " <==\n" else "") ++ file.2)
        stderr := concat (failures lookup style emit recover files) ++
          if failures lookup style emit recover files = [] then ""
          else toString (failures lookup style emit recover files).length ++ " of " ++
            toString files.length ++ " file(s) failed\n"
        exitCode := if failures lookup style emit recover files = [] then 0 else 1 } := by
  unfold ofParse
  dsimp only
  rw [countP_failed_showFile, List.map_map, List.map_map]
  have hstdout := concat_stdout_showFile lookup style emit recover (1 < files.length) files
  have hstderr := concat_stderr_showFile lookup style emit recover (1 < files.length) files
  simp only [decide_eq_true_eq] at hstdout
  simp only [Function.comp_def, hstdout, hstderr, List.length_eq_zero_iff]

/-- Every file is shown or reported, and not both. -/
theorem length_renderings_add_length_failures (files : List String) :
    (renderings lookup style emit recover files).length +
      (failures lookup style emit recover files).length = files.length := by
  induction files with
  | nil => rfl
  | cons path more ih =>
    rw [renderings, failures, List.filterMap_cons, List.filterMap_cons]
    rcases showFile_cases lookup style emit recover path with
      ⟨rendered, hrendering, hfailure, -⟩ | ⟨report, hrendering, hfailure, -⟩
    · rw [hrendering, hfailure]
      exact (Nat.succ_add _ _).trans (congrArg Nat.succ ih)
    · rw [hrendering, hfailure]
      exact congrArg Nat.succ ih

theorem endsLine_of_mem_failures {files : List String} {report : String}
    (h : report ∈ failures lookup style emit recover files) : EndsLine report := by
  obtain ⟨path, -, hreport⟩ := List.mem_filterMap.1 h
  rcases showFile_cases lookup style emit recover path with
    ⟨rendered, -, hfailure, -⟩ | ⟨report', -, hfailure, hends, -⟩
  · rw [hfailure] at hreport
    cases hreport
  · rw [hfailure] at hreport
    exact Option.some.inj hreport ▸ hends

theorem failures_eq_flatMap (files : List String) :
    failures lookup style emit recover files =
      files.flatMap fun path => failures lookup style emit recover [path] := by
  rw [failures, List.filterMap_eq_flatMap_toList]
  refine List.flatMap_congr fun path _ => ?_
  rw [failures, List.filterMap_cons]
  cases failure? lookup style emit recover path with
  | none => rfl
  | some report => rfl

/-- What comes of showing a single file. -/
theorem ofParse_singleton (path : String) :
    (ofParse lookup style emit recover [path]).stdout =
        (rendering? lookup style emit recover path).getD "" ∧
      ((ofParse lookup style emit recover [path]).exitCode = 0 ↔
        (rendering? lookup style emit recover path).isSome = true) := by
  rw [ofParse_eq, renderings, failures, List.filterMap_cons, List.filterMap_cons]
  rcases showFile_cases lookup style emit recover path with
    ⟨rendered, hrendering, hfailure, -⟩ | ⟨report, hrendering, hfailure, -⟩
  · rw [hrendering, hfailure]
    exact ⟨(String.append_empty).trans String.empty_append, iff_of_true rfl rfl⟩
  · rw [hrendering, hfailure]
    exact ⟨rfl, iff_of_false Nat.one_ne_zero nofun⟩

/-- What is printed is what is printed of each file alone, below its path if there are others. -/
theorem stdout_ofParse_eq_concat (files : List String) :
    (ofParse lookup style emit recover files).stdout = concat (files.map fun path =>
      (if 1 < files.length ∧ (ofParse lookup style emit recover [path]).exitCode = 0 then
        "==> " ++ path ++ " <==\n" else "") ++
        (ofParse lookup style emit recover [path]).stdout) := by
  rw [ofParse_eq]
  refine (concat_map_filterMap fun path _ => ?_).symm
  obtain ⟨hstdout, hexit⟩ := ofParse_singleton lookup style emit recover path
  simp only [hstdout, hexit]
  cases rendering? lookup style emit recover path with
  | none => simp
  | some rendered => simp

end Shown

end Outcome

/-- What comes of showing files is what comes of each of them, in order.  A file that can be read
and parsed adds its tree in the form that is asked for, below its path if it is not the only file;
any other file adds one report to the errors, which ends with a line feed, and the last line of
these counts the reports.  The command succeeds if there are none.  With the other files away, a
file adds the same, but for the path above it.  And arguments that name these files and do not begin
with a command, and no other arguments, ask for the files to be shown; what comes of that is what
comes of the same arguments behind `parse`. -/
theorem files_shown_independently (lookup : Lookup) (emit : Emit) (recover : Bool) (indent : Nat)
    (files : List String) :
    let style : Style := { indentWidth := indent }
    let rendered := Outcome.renderings lookup style emit recover
    let reports := Outcome.failures lookup style emit recover
    let shown := fun files => (Command.parse files emit recover indent).outcome lookup
    (shown files).stdout = Outcome.concat ((rendered files).map fun file =>
      (if 1 < files.length then "==> " ++ file.1 ++ " <==\n" else "") ++ file.2) ∧
    ((shown files).stderr = Outcome.concat (reports files) ++
      if reports files = [] then "" else
        toString (reports files).length ++ " of " ++ toString files.length ++
          " file(s) failed\n") ∧
    (shown files).exitCode = (if reports files = [] then 0 else 1) ∧
    (shown files).writes = [] ∧
    (rendered files).length + (reports files).length = files.length ∧
    (∀ report ∈ reports files, EndsLine report) ∧
    (shown files).stdout = Outcome.concat (files.map fun path =>
      (if 1 < files.length ∧ (shown [path]).exitCode = 0 then "==> " ++ path ++ " <==\n" else "") ++
        (shown [path]).stdout) ∧
    reports files = files.flatMap (fun path => reports [path]) ∧
    (files ≠ [] →
      (Command.view files).outcome lookup = (Command.parse files .tree false 2).outcome lookup) ∧
    ∀ arguments,
      (Command.ofArguments arguments = .ok (.view files) ↔
        ¬ Command.IsNamed arguments ∧ Command.AsksFor arguments files) ∧
      (Command.AsksFor arguments files →
        Command.ofArguments ("parse" :: arguments) = .ok (.parse files .tree false 2)) := by
  intro style rendered reports shown
  have hshown : shown files = _ := Outcome.ofParse_eq lookup style emit recover files
  refine ⟨?_, ?_, ?_, ?_, ?_, ?_, ?_, ?_, ?_, ?_⟩
  · rw [hshown]
  · rw [hshown]
  · rw [hshown]
  · rw [hshown]
  · exact Outcome.length_renderings_add_length_failures lookup style emit recover files
  · exact fun report => Outcome.endsLine_of_mem_failures lookup style emit recover
  · exact Outcome.stdout_ofParse_eq_concat lookup style emit recover files
  · exact Outcome.failures_eq_flatMap lookup style emit recover files
  · intro hfiles
    rw [Command.outcome, if_neg (mt List.isEmpty_iff.1 hfiles)]
    rfl
  · intro arguments
    exact ⟨Command.ofArguments_eq_view_iff, Command.ofArguments_parse_of_asksFor⟩

/-- A file that can be shown and one that is not there, with and without a command. -/
theorem files_shown_independently_missing :
    let lookup : Lookup := fun path =>
      if path = "a.sap" then .ok (.file (.ofText "var x=1")) else .error .notFound
    let outcome := (Command.parse ["a.sap", "b.sap"] .source false 2).outcome lookup
    outcome.stdout = "==> a.sap <==\nvar x = 1\n" ∧
      outcome.stderr = "Cannot access file 'b.sap': No such file or directory (os error 2)\n" ++
        "1 of 2 file(s) failed\n" ∧
      outcome.exitCode = 1 ∧
      Command.ofArguments ["a.sap", "b.sap"] = .ok (.view ["a.sap", "b.sap"]) ∧
      Command.ofArguments ["parse", "a.sap", "b.sap"] =
        .ok (.parse ["a.sap", "b.sap"] .tree false 2) ∧
      (Command.view ["a.sap", "b.sap"]).outcome lookup =
        (Command.parse ["a.sap", "b.sap"] .tree false 2).outcome lookup := by
  intro lookup outcome
  have hthere : lookup "a.sap" = .ok (.file (.ofText "var x=1")) := if_pos rfl
  have hmissing : lookup "b.sap" = .error .notFound := if_neg (by decide)
  have hread : (FileContent.ofText "var x=1").read = .ok "var x=1" :=
    FileContent.read_ofText (Nat.le_of_ble_eq_true rfl)
  have hsource : renderSource { indentWidth := 2 } .source false "var x=1" = .ok "var x = 1\n" := by
    decide +kernel
  have hrendered : Outcome.renderings lookup { indentWidth := 2 } .source false
      ["a.sap", "b.sap"] = [("a.sap", "var x = 1\n")] := by
    simp [Outcome.renderings, Outcome.rendering?, readSource, hthere, hmissing, hread, hsource,
      Except.toOption]
  have hreports : Outcome.failures lookup { indentWidth := 2 } .source false ["a.sap", "b.sap"] =
      ["Cannot access file 'b.sap': No such file or directory (os error 2)\n"] := by
    simp only [Outcome.failures, Outcome.failure?, readSource, hthere, hmissing, hread, hsource,
      List.filterMap_cons, List.filterMap_nil]
    decide +kernel
  have hasks : Command.AsksFor ["a.sap", "b.sap"] ["a.sap", "b.sap"] :=
    ⟨.word (.inr (by decide)) (.word (.inr (by decide)) .nil), List.cons_ne_nil _ _, by decide⟩
  have hnamed : ¬ Command.IsNamed ["a.sap", "b.sap"] := by simp [Command.IsNamed]
  obtain ⟨hstdout, hstderr, hexit, -, -, -, -, -, hview, harguments⟩ :=
    files_shown_independently lookup .source false 2 ["a.sap", "b.sap"]
  obtain ⟨hwithout, hbehind⟩ := harguments ["a.sap", "b.sap"]
  rw [hrendered] at hstdout
  rw [hreports] at hstderr hexit
  exact ⟨hstdout, hstderr, hexit, hwithout.2 ⟨hnamed, hasks⟩, hbehind hasks,
    hview (List.cons_ne_nil _ _)⟩

end DeclLang
