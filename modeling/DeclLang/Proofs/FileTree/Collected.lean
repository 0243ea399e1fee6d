import DeclLang.Proofs.FileTree.Order
import DeclLang.Proofs.FileTree.Reordered
import Mathlib.Data.List.Perm.Basic

/-!
# Collecting source files is exact

Which files are collected from a directory can be said of their names alone (`IsCollected`): the
last name has the right extension, and no directory on the way is passed over.  So the source files
of a tree are the files that such names lead to (`FileTree.IsProper.mem_sources_iff`).

Those that are collected stand in the order of their components, and none of them twice
(`pairwise_precedes_collectSources`).  Only one list has these files in that order, so it does not
matter how the entries of directories are ordered (`collectSources_reordered`), nor whether sorting
is done once or for each directory again (`collectSources_eq_mergeSort`).
-/

namespace DeclLang

open FileTree

/-! ## Names of collected files -/

/-- Whether the file that some names lead to is collected.  What counts are the extension of the last
name and the directories before it, of which none may be hidden or build output. -/
def IsCollected (names : List String) : Prop :=
  ∃ outer name, names = outer ++ [name] ∧ Path.HasExtension name "sap" ∧
    ∀ directory ∈ outer, directory.toList.head? ≠ some '.' ∧ directory ≠ "target"

theorem isSkippedDirectory_eq_false_iff {name : String} :
    isSkippedDirectory name = false ↔ name.toList.head? ≠ some '.' ∧ name ≠ "target" := by
  simp [isSkippedDirectory]

theorem not_isCollected_nil : ¬ IsCollected [] := by
  rintro ⟨outer, name, hnil, -⟩
  exact List.concat_ne_nil _ _ hnil.symm

theorem isCollected_singleton {name : String} :
    IsCollected [name] ↔ isSourceName name = true := by
  rw [isSourceName_iff]
  constructor
  · rintro ⟨outer, last, hnames, hextension, -⟩
    obtain ⟨rfl, hlast⟩ := List.append_eq_singleton_iff.1 hnames.symm |>.resolve_right (by simp)
    obtain rfl := List.singleton_inj.1 hlast
    exact hextension
  · intro h
    exact ⟨[], name, rfl, h, List.forall_mem_nil _⟩

theorem isCollected_cons {name : String} {more : List String} (hne : more ≠ []) :
    IsCollected (name :: more) ↔ isSkippedDirectory name = false ∧ IsCollected more := by
  rw [isSkippedDirectory_eq_false_iff]
  constructor
  · rintro ⟨outer, last, hnames, hextension, houter⟩
    cases outer with
    | nil => exact absurd (List.cons.inj hnames).2 hne
    | cons first outer =>
      obtain ⟨rfl, hmore⟩ := List.cons.inj hnames
      obtain ⟨hfirst, houter⟩ := List.forall_mem_cons.1 houter
      exact ⟨hfirst, outer, last, hmore, hextension, houter⟩
  · rintro ⟨hname, outer, last, rfl, hextension, houter⟩
    exact ⟨name :: outer, last, rfl, hextension, List.forall_mem_cons.2 ⟨hname, houter⟩⟩

namespace FileTree

section Sources

variable {tree : FileTree} {names : List String} {content : FileContent}

theorem at?_file_eq_some_iff {old : FileContent} :
    (file old).at? names = some (file content) ↔ names = [] ∧ old = content := by
  cases names with
  | nil => simp [at?]
  | cons name more =>
    refine iff_of_false ?_ fun h => List.cons_ne_nil _ _ h.1
    intro h
    cases h

/-- The names that lead to something in a proper tree are names. -/
theorem IsProper.isName_of_at? (htree : tree.IsProper) {found : FileTree}
    (h : tree.at? names = some found) : ∀ name ∈ names, Path.IsName name := by
  induction names generalizing tree with
  | nil => exact List.forall_mem_nil _
  | cons name more ih =>
    obtain ⟨child, hchild, hmore⟩ := Option.bind_eq_some_iff.1 h
    obtain ⟨hname, hproper⟩ := htree.of_child? hchild
    exact List.forall_mem_cons.2 ⟨hname, ih hproper hmore⟩

theorem mem_entrySources_file_iff {name : String} {more : List String} {old : FileContent} :
    (name :: more, content) ∈ entrySources (name, file old) ↔
      (file old).at? more = some (file content) ∧ IsCollected (name :: more) := by
  rw [entrySources, at?_file_eq_some_iff]
  constructor
  · intro h
    split at h
    · next hname =>
      obtain ⟨hnames, rfl⟩ := Prod.mk.inj (List.mem_singleton.1 h)
      obtain rfl := (List.cons.inj hnames).2
      exact ⟨⟨rfl, rfl⟩, isCollected_singleton.2 hname⟩
    · cases h
  · rintro ⟨⟨rfl, rfl⟩, hcollected⟩
    rw [isCollected_singleton] at hcollected
    rw [if_pos hcollected]
    exact List.mem_singleton_self _

theorem mem_entrySources_directory_iff {name : String} {more : List String}
    {entries : List (String × FileTree)}
    (h : (more, content) ∈ (directory entries).sources ↔
      (directory entries).at? more = some (file content) ∧ IsCollected more) :
    (name :: more, content) ∈ entrySources (name, directory entries) ↔
      (directory entries).at? more = some (file content) ∧ IsCollected (name :: more) := by
  rw [sources] at h
  have hmem : (name :: more, content) ∈ entrySources (name, directory entries) ↔
      isSkippedDirectory name = false ∧ (more, content) ∈ sourcesAmong entries := by
    rw [entrySources]
    cases isSkippedDirectory name with
    | true => simp
    | false => simp
  rw [hmem, h]
  cases more with
  | nil =>
    refine iff_of_false (fun h => not_isCollected_nil h.2.2) ?_
    rintro ⟨h, -⟩
    cases h
  | cons next more =>
    rw [isCollected_cons (List.cons_ne_nil _ _)]
    exact and_left_comm

/-- The source files of a tree are the files that names of collected files lead to. -/
theorem IsProper.mem_sources_iff (htree : tree.IsProper) :
    (names, content) ∈ tree.sources ↔
      tree.at? names = some (FileTree.file content) ∧ IsCollected names := by
  induction htree generalizing names with
  | file old =>
    rw [sources, at?_file_eq_some_iff]
    refine iff_of_false List.not_mem_nil ?_
    rintro ⟨⟨rfl, -⟩, hnil⟩
    exact not_isCollected_nil hnil
  | @directory entries hnodup hnames hentries ih =>
    rw [sources, sourcesAmong_eq_flatMap, List.mem_flatMap]
    cases names with
    | nil =>
      refine iff_of_false ?_ fun h => not_isCollected_nil h.2
      rintro ⟨entry, -, hmem⟩
      cases head?_of_mem_entrySources hmem
    | cons name more =>
      -- Only the entry of that name has source files behind it.
      have hentry (child : FileTree) (hchild : (name, child) ∈ entries) :
          (name :: more, content) ∈ entrySources (name, child) ↔
            child.at? more = some (FileTree.file content) ∧ IsCollected (name :: more) := by
        cases child with
        | file old => exact mem_entrySources_file_iff
        | directory below => exact mem_entrySources_directory_iff (ih _ hchild)
      rw [at?, Option.bind_eq_some_iff]
      constructor
      · rintro ⟨entry, hmem, hsource⟩
        obtain ⟨entryName, child⟩ := entry
        obtain rfl : name = entryName :=
          Option.some.inj (head?_of_mem_entrySources hsource)
        obtain ⟨hfound, hcollected⟩ := (hentry child hmem).1 hsource
        exact ⟨⟨child, child?_of_mem hnodup hmem, hfound⟩, hcollected⟩
      · rintro ⟨⟨child, hchild, hfound⟩, hcollected⟩
        have hmem : (name, child) ∈ entries :=
          (child?_eq_some_iff hnodup).1 hchild
        exact ⟨_, hmem, (hentry child hmem).2 ⟨hfound, hcollected⟩⟩

end Sources

end FileTree

/-! ## The order of collected files -/

section Order

variable {α : Type} {names : α → List String}

theorem pairwise_isBefore_mergeSort (found : List α) :
    (found.mergeSort fun a b => Path.isBefore (names a) (names b)).Pairwise
      fun a b => Path.isBefore (names a) (names b) = true :=
  List.pairwise_mergeSort
    (fun a b c => Path.isBefore_trans (names a) (names b) (names c))
    (fun a b => Path.isBefore_total (names a) (names b)) found

/-- What is in strict order is what sorting it gives, in whatever order it comes. -/
theorem eq_mergeSort_of_perm {sorted found : List α}
    (hsorted : sorted.Pairwise fun a b => Path.Precedes (names a) (names b))
    (hperm : sorted.Perm found) :
    sorted = found.mergeSort fun a b => Path.isBefore (names a) (names b) := by
  have hsame := hperm.trans
    (List.mergeSort_perm found fun a b => Path.isBefore (names a) (names b)).symm
  refine List.Perm.eq_of_pairwise ?_ (hsorted.imp fun h => Path.isBefore_iff.2 (.inl h))
    (pairwise_isBefore_mergeSort found) hsame
  intro a b ha hb hab hba
  have hnodup : (sorted.map names).Nodup := List.pairwise_map.2 (hsorted.imp Path.Precedes.ne)
  exact List.inj_on_of_nodup_map hnodup ha (hsame.mem_iff.2 hb) (Path.isBefore_antisymm hab hba)

end Order

/-- The source files of a directory, once sorted, are in strict order. -/
theorem pairwise_precedes_mergeSort {entries : List (String × FileTree)}
    (hproper : (directory entries).IsProper) :
    ((sourcesAmong entries).mergeSort fun a b => Path.isBefore a.1 b.1).Pairwise
      fun a b => Path.Precedes a.1 b.1 := by
  have hnodup : (((sourcesAmong entries).mergeSort fun a b => Path.isBefore a.1 b.1).map
      Prod.fst).Nodup := @nodup_sourcesAt "" _ hproper
  refine ((pairwise_isBefore_mergeSort _).and (List.pairwise_map.1 hnodup)).imp ?_
  rintro a b ⟨hbefore, hne⟩
  exact (Path.isBefore_iff.1 hbefore).resolve_right hne

/-! ## Collecting from a path -/

section Collect

variable {root reordered : FileTree} {path : String} {content : FileContent}
  {entries : List (String × FileTree)}

theorem collectSources_of_file (h : root.find? path = .ok (file content)) :
    collectSources root.find? path =
      if isSourceName (Path.name path) then [(path, content)] else [] := by
  rw [collectSources, h]

theorem collectSources_of_directory (h : root.find? path = .ok (directory entries)) :
    collectSources root.find? path =
      ((sourcesAmong entries).mergeSort fun a b => Path.isBefore a.1 b.1).map fun source =>
        (Path.descend path source.1, source.2) := by
  rw [collectSources, h]

theorem isProper_of_find? {tree : FileTree} (hroot : root.IsProper)
    (h : root.find? path = .ok tree) : tree.IsProper := by
  obtain ⟨trail, htrail, rfl⟩ := exists_trail_of_find? h
  exact hroot.here (isTrail_of_trail? htrail)

/-- What is collected from a directory are the files that names of collected files lead to. -/
theorem mem_collectSources_iff (hroot : root.IsProper)
    (h : root.find? path = .ok (directory entries)) {source : String × FileContent} :
    source ∈ collectSources root.find? path ↔
      ∃ names, (directory entries).at? names = some (file source.2) ∧ IsCollected names ∧
        source.1 = Path.descend path names := by
  have hproper := isProper_of_find? hroot h
  obtain ⟨found, content⟩ := source
  rw [collectSources_of_directory h, List.mem_map]
  constructor
  · rintro ⟨⟨names, old⟩, hmem, heq⟩
    obtain ⟨rfl, rfl⟩ := Prod.mk.inj heq
    rw [List.mem_mergeSort, ← sources, hproper.mem_sources_iff] at hmem
    exact ⟨names, hmem.1, hmem.2, rfl⟩
  · rintro ⟨names, hfound, hcollected, rfl⟩
    refine ⟨(names, content), ?_, rfl⟩
    rw [List.mem_mergeSort, ← sources, hproper.mem_sources_iff]
    exact ⟨hfound, hcollected⟩

/-- What is collected from a directory is in strict order, so nothing is collected twice. -/
theorem pairwise_precedes_collectSources (hroot : root.IsProper)
    (h : root.find? path = .ok (directory entries)) :
    (collectSources root.find? path).Pairwise fun a b =>
      Path.Precedes (Path.components a.1) (Path.components b.1) := by
  have hproper := isProper_of_find? hroot h
  have hcomponents : ∀ source ∈ (sourcesAmong entries).mergeSort fun a b =>
      Path.isBefore a.1 b.1,
      Path.components (Path.descend path source.1) = Path.components path ++ source.1 := by
    intro source hsource
    rw [List.mem_mergeSort, ← sources, hproper.mem_sources_iff] at hsource
    exact Path.components_descend (hproper.isName_of_at? hsource.1) path
  rw [collectSources_of_directory h, List.pairwise_map]
  refine (pairwise_precedes_mergeSort hproper).imp_of_mem ?_
  intro a b ha hb hprecedes
  rw [hcomponents a ha, hcomponents b hb]
  exact hprecedes.append_left _

/-- The order in which the entries of directories come does not matter. -/
theorem collectSources_reordered (hroot : root.IsProper) (h : root.Reordered reordered)
    (path : String) : collectSources reordered.find? path = collectSources root.find? path := by
  rcases h.find? hroot path with ⟨cause, hfail, hfail'⟩ | ⟨tree, other, hfound, hfound', hproper, h⟩
  · rw [collectSources, collectSources, hfail, hfail']
  · cases tree with
    | file content =>
      rw [h.eq_of_file.1 rfl] at hfound'
      rw [collectSources_of_file hfound, collectSources_of_file hfound']
    | directory entries =>
      cases other with
      | file content => cases h.eq_of_file.2 rfl
      | directory others =>
        have hsources : (sourcesAmong entries).Perm (sourcesAmong others) := by
          have hsources := h.sources
          rwa [sources, sources] at hsources
        rw [collectSources_of_directory hfound, collectSources_of_directory hfound']
        have hperm := (List.mergeSort_perm (sourcesAmong entries)
          fun a b => Path.isBefore a.1 b.1).trans hsources
        rw [eq_mergeSort_of_perm (pairwise_precedes_mergeSort hproper) hperm]

/-- What one entry of a directory adds to what is collected from the directory. -/
def collectEntry (lookup : Lookup) (path : String) : String × FileTree → List (String × FileContent)
  | (name, file content) => if isSourceName name then [(Path.child path name, content)] else []
  | (name, directory _) =>
    if isSkippedDirectory name then [] else collectSources lookup (Path.child path name)

theorem find?_child (hroot : root.IsProper) (h : root.find? path = .ok (directory entries))
    {name : String} {child : FileTree} (hchild : (name, child) ∈ entries) :
    root.find? (Path.child path name) = .ok child := by
  obtain ⟨trail, htrail, hhere⟩ := exists_trail_of_find? h
  have hproper := isProper_of_find? hroot h
  cases hproper with
  | directory hnodup hnames =>
    have hfound : (root.here trail).child? name = some child := by
      rw [hhere]
      exact child?_of_mem hnodup hchild
    exact find?_of_trail (trail?_child htrail (hnames _ hchild) hfound)

/-- Sorting can be done for each directory again: what is collected from a directory is what its
entries add, sorted. -/
theorem collectSources_eq_mergeSort (hroot : root.IsProper)
    (h : root.find? path = .ok (directory entries)) :
    collectSources root.find? path =
      (entries.flatMap (collectEntry root.find? path)).mergeSort fun a b =>
        Path.isBefore (Path.components a.1) (Path.components b.1) := by
  refine eq_mergeSort_of_perm (pairwise_precedes_collectSources hroot h) ?_
  rw [collectSources_of_directory h]
  refine ((List.mergeSort_perm _ _).map _).trans ?_
  rw [sourcesAmong_eq_flatMap, List.map_flatMap]
  refine List.Perm.flatMap_left entries fun entry hentry => ?_
  obtain ⟨name, child⟩ := entry
  cases child with
  | file content =>
    rw [entrySources, collectEntry]
    split
    · exact .refl _
    · exact .refl _
  | directory below =>
    rw [entrySources, collectEntry]
    split
    · exact .refl _
    · rw [collectSources_of_directory (find?_child hroot h hentry), List.map_map]
      exact ((List.mergeSort_perm (sourcesAmong below) _).map _).symm

end Collect

/-- Collecting is exact, in order and without repetition, and does not depend on the order in which
directories are read.  A path that leads nowhere stands for no source file, and a file stands for
itself if its extension is that of source files.  A directory stands for all files of that extension
below it, whatever their own names, except those in directories that are hidden or build output; the
directory itself may be either.  They are sorted by components, with none twice, and this comes to
the same whether it is done once or again for each directory. -/
theorem sources_collected_exactly {root reordered : FileTree} (hroot : root.IsProper)
    (hreordered : root.Reordered reordered) (path : String) :
    collectSources reordered.find? path = collectSources root.find? path ∧
    (∀ cause, root.find? path = .error cause → collectSources root.find? path = []) ∧
    (∀ content, root.find? path = .ok (file content) →
      (Path.HasExtension (Path.name path) "sap" →
        collectSources root.find? path = [(path, content)]) ∧
      (¬ Path.HasExtension (Path.name path) "sap" → collectSources root.find? path = [])) ∧
    ∀ entries, root.find? path = .ok (directory entries) →
      (∀ source, source ∈ collectSources root.find? path ↔
        ∃ outer name, (directory entries).at? (outer ++ [name]) = some (file source.2) ∧
          Path.HasExtension name "sap" ∧
          (∀ inner ∈ outer, inner.toList.head? ≠ some '.' ∧ inner ≠ "target") ∧
          source.1 = Path.descend path (outer ++ [name])) ∧
      (collectSources root.find? path).Pairwise
        (fun a b => Path.Precedes (Path.components a.1) (Path.components b.1)) ∧
      collectSources root.find? path =
        (entries.flatMap (collectEntry root.find? path)).mergeSort fun a b =>
          Path.isBefore (Path.components a.1) (Path.components b.1) := by
  refine ⟨collectSources_reordered hroot hreordered path, ?_, ?_, ?_⟩
  · intro cause h
    rw [collectSources, h]
  · intro content h
    rw [← isSourceName_iff, collectSources_of_file h]
    exact ⟨fun hname => if_pos hname, fun hname => if_neg hname⟩
  · intro entries h
    refine ⟨fun source => ?_, pairwise_precedes_collectSources hroot h,
      collectSources_eq_mergeSort hroot h⟩
    rw [mem_collectSources_iff hroot h]
    constructor
    · rintro ⟨_, hfound, ⟨outer, name, rfl, hextension, houter⟩, hsource⟩
      exact ⟨outer, name, hfound, hextension, houter, hsource⟩
    · rintro ⟨outer, name, hfound, hextension, houter, hsource⟩
      exact ⟨_, hfound, ⟨outer, name, rfl, hextension, houter⟩, hsource⟩

/-! ## A directory with files that are passed over -/

/-- The entries of a directory in which source files lie beside others, in other directories and in
directories that are passed over. -/
def FileTree.thicket : List (String × FileTree) :=
  let empty := file (.ofText "")
  [("a", directory [(".sap", empty), ("b.sap", empty)]), ("a.sap", empty),
    (".hidden", directory [("h.sap", empty)]), ("target", directory [("t.sap", empty)]),
    ("x.sap", directory [(".c.sap", empty)])]

theorem FileTree.isProper_thicket : (directory thicket).IsProper := by
  have hnames : ∀ name ∈ ["a", ".sap", "b.sap", "a.sap", ".hidden", "h.sap", "target", "t.sap",
      "x.sap", ".c.sap"], Path.IsName name := by decide
  simp only [List.forall_mem_cons] at hnames
  obtain ⟨ha, hsap, hb, hasap, hhidden, hh, htarget, ht, hx, hc, -⟩ := hnames
  refine .directory (by decide) (by simp [thicket, *]) ?_
  simp only [thicket, List.forall_mem_cons]
  refine ⟨.directory (by decide) (by simp [*]) (by simp [IsProper.file]), .file _,
    .directory (by decide) (by simp [*]) (by simp [IsProper.file]),
    .directory (by decide) (by simp [*]) (by simp [IsProper.file]),
    .directory (by decide) (by simp [*]) (by simp [IsProper.file]), List.forall_mem_nil _⟩

theorem FileTree.collectSources_thicket :
    collectSources (directory thicket).find? "." =
      [("./a/b.sap", .ofText ""), ("./a.sap", .ofText ""), ("./x.sap/.c.sap", .ofText "")] := by
  have hsources : thicket.flatMap entrySources = [(["a", "b.sap"], .ofText ""),
      (["a.sap"], .ofText ""), (["x.sap", ".c.sap"], .ofText "")] := by
    have hkept : ∀ name ∈ ["b.sap", "a.sap", ".c.sap"], isSourceName name = true := by decide
    have hother : isSourceName ".sap" = false := by decide
    have hentered : ∀ name ∈ ["a", "x.sap"], isSkippedDirectory name = false := by decide
    have hskipped : ∀ name ∈ [".hidden", "target"], isSkippedDirectory name = true := by decide
    simp only [List.forall_mem_cons] at hkept hentered hskipped
    simp [thicket, entrySources, sourcesAmong, hkept, hother, hentered, hskipped]
  have hsorted : [(["a", "b.sap"], FileContent.ofText ""), (["a.sap"], .ofText ""),
      (["x.sap", ".c.sap"], .ofText "")].Pairwise
        fun a b => Path.isBefore a.1 b.1 = true := by
    rw [← List.pairwise_map (f := Prod.fst) (R := fun a b => Path.isBefore a b = true)]
    decide +kernel
  have hfound : (directory thicket).find? "." = .ok (directory thicket) := rfl
  rw [collectSources_of_directory hfound, sourcesAmong_eq_flatMap, hsources,
    List.mergeSort_of_pairwise hsorted]
  rfl

/-- Directories that are read backwards give the same, and a directory that would be passed over can
be the one that is asked for. -/
theorem sources_collected_exactly_backwards :
    (directory thicket).IsProper ∧ (directory thicket).Reordered (directory thicket.reverse) ∧
      collectSources (directory thicket.reverse).find? "." =
        [("./a/b.sap", .ofText ""), ("./a.sap", .ofText ""), ("./x.sap/.c.sap", .ofText "")] ∧
      (".hidden/h.sap", .ofText "") ∈ collectSources (directory thicket).find? ".hidden" := by
  have hreordered : (directory thicket).Reordered (directory thicket.reverse) :=
    .entries (List.reverse_perm thicket).symm
  obtain ⟨hsame, -⟩ := sources_collected_exactly isProper_thicket hreordered "."
  obtain ⟨-, -, -, hhidden⟩ := sources_collected_exactly isProper_thicket hreordered ".hidden"
  refine ⟨isProper_thicket, hreordered, hsame.trans collectSources_thicket, ?_⟩
  have hextension : Path.HasExtension "h.sap" "sap" := isSourceName_iff.1 (by decide)
  exact ((hhidden _ rfl).1 _).2 ⟨[], "h.sap", rfl, hextension, List.forall_mem_nil _, rfl⟩

end DeclLang
