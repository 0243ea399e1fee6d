import DeclLang.FileTree.Source
import DeclLang.Proofs.FileTree.Proper
import Mathlib.Data.List.Nodup

/-!
# The source files that a path stands for

What is collected from a path are files: each path in the list leads to the file that stands beside
it (`find?_of_mem_collectSources`), and no path comes twice (`nodup_collectSources`).  Which files
they are, and their order, depends on names only, so the same paths are collected from a tree in
which files have other contents (`collectSources_mapContents`).
-/

namespace DeclLang

namespace FileTree

/-! ## The source files of a directory -/

/-- The source files that an entry of a directory adds to those of the directory. -/
def entrySources : String × FileTree → List (List String × FileContent)
  | (name, file content) => if isSourceName name then [([name], content)] else []
  | (name, directory entries) =>
    if isSkippedDirectory name then []
    else (sourcesAmong entries).map fun source => (name :: source.1, source.2)

theorem sourcesAmong_eq_flatMap (entries : List (String × FileTree)) :
    sourcesAmong entries = entries.flatMap entrySources := by
  induction entries with
  | nil => rw [sourcesAmong, List.flatMap_nil]
  | cons entry more ih =>
    obtain ⟨name, tree⟩ := entry
    cases tree with
    | file content => rw [sourcesAmong, ih, List.flatMap_cons, entrySources]
    | directory entries => rw [sourcesAmong, ih, List.flatMap_cons, entrySources]

/-- A source file below an entry is one of the entry's own source files, or is the entry. -/
theorem mem_entrySources {entry : String × FileTree} {source : List String × FileContent}
    (h : source ∈ entrySources entry) :
    (entry.2 = file source.2 ∧ source.1 = [entry.1]) ∨
      ∃ below ∈ entry.2.sources, source = (entry.1 :: below.1, below.2) := by
  obtain ⟨name, tree⟩ := entry
  cases tree with
  | file content =>
    rw [entrySources] at h
    split at h
    · obtain rfl := List.mem_singleton.1 h
      exact .inl ⟨rfl, rfl⟩
    · cases h
  | directory entries =>
    rw [entrySources] at h
    split at h
    · cases h
    · obtain ⟨below, hbelow, rfl⟩ := List.mem_map.1 h
      exact .inr ⟨below, by rwa [sources], rfl⟩

/-- The names before a source file lead to it. -/
theorem IsProper.at?_of_mem_sources {tree : FileTree} (htree : tree.IsProper) :
    ∀ source ∈ tree.sources, tree.at? source.1 = some (.file source.2) := by
  induction htree with
  | file content =>
    rw [sources]
    exact List.forall_mem_nil _
  | @directory entries hnodup _ _ ih =>
    rw [sources, sourcesAmong_eq_flatMap]
    intro source hsource
    obtain ⟨entry, hentry, hsource⟩ := List.mem_flatMap.1 hsource
    have hchild : (FileTree.directory entries).child? entry.1 = some entry.2 :=
      child?_of_mem hnodup hentry
    rcases mem_entrySources hsource with ⟨htree, hnames⟩ | ⟨below, hbelow, rfl⟩
    · rw [hnames, at?, hchild, htree]
      rfl
    · rw [at?, hchild]
      exact ih entry hentry below hbelow

theorem head?_of_mem_entrySources {entry : String × FileTree} {source : List String × FileContent}
    (h : source ∈ entrySources entry) : source.1.head? = some entry.1 := by
  rcases mem_entrySources h with ⟨-, hnames⟩ | ⟨below, -, rfl⟩
  · rw [hnames]
    rfl
  · rfl

theorem nodup_entrySources {entry : String × FileTree}
    (h : (entry.2.sources.map Prod.fst).Nodup) : ((entrySources entry).map Prod.fst).Nodup := by
  obtain ⟨name, tree⟩ := entry
  cases tree with
  | file content =>
    rw [entrySources]
    split
    · exact List.nodup_singleton _
    · exact List.nodup_nil
  | directory entries =>
    rw [sources] at h
    rw [entrySources]
    split
    · exact List.nodup_nil
    · have hcons := h.map (List.cons_injective (a := name))
      rwa [List.map_map] at hcons ⊢

/-- No two source files have the same names before them. -/
theorem IsProper.nodup_sources {tree : FileTree} (htree : tree.IsProper) :
    (tree.sources.map Prod.fst).Nodup := by
  induction htree with
  | file content =>
    rw [sources]
    exact List.nodup_nil
  | @directory entries hnodup _ _ ih =>
    rw [sources, sourcesAmong_eq_flatMap, List.map_flatMap, List.nodup_flatMap]
    refine ⟨fun entry hentry => nodup_entrySources (ih entry hentry), ?_⟩
    -- Source files of different entries begin with different names.
    refine (List.pairwise_map.1 hnodup).imp fun {a b} hne => ?_
    refine List.disjoint_left.2 ?_
    intro names ha hb
    obtain ⟨source, hsource, rfl⟩ := List.mem_map.1 ha
    obtain ⟨source', hsource', heq⟩ := List.mem_map.1 hb
    have hhead := head?_of_mem_entrySources hsource
    rw [← heq, head?_of_mem_entrySources hsource'] at hhead
    exact hne (Option.some.inj hhead).symm

theorem sources_mapContents (change : List String → FileContent → FileContent) (tree : FileTree) :
    (tree.mapContents change).sources =
      tree.sources.map fun source => (source.1, change source.1 source.2) := by
  induction tree generalizing change with
  | file content =>
    rw [mapContents_file, sources, sources]
    rfl
  | directory entries ih =>
    rw [mapContents_directory, sources, sources, sourcesAmong_eq_flatMap, sourcesAmong_eq_flatMap,
      List.flatMap_map, List.map_flatMap]
    refine List.flatMap_congr ?_
    rintro ⟨name, tree⟩ hentry
    have hbelow := ih _ hentry fun location => change (name :: location)
    cases tree with
    | file content =>
      rw [mapContents_file, entrySources, entrySources]
      split
      · rfl
      · rfl
    | directory below =>
      rw [mapContents_directory, sources, sources] at hbelow
      rw [mapContents_directory, entrySources, entrySources, hbelow]
      split
      · rfl
      · rw [List.map_map, List.map_map]
        rfl

end FileTree

/-! ## The source files that a path stands for -/

open FileTree

/-- The source files at a path that leads to a tree, each with the names that lead on to it. -/
def sourcesAt (path : String) : FileTree → List (List String × FileContent)
  | file content => if isSourceName (Path.name path) then [([], content)] else []
  | directory entries => (sourcesAmong entries).mergeSort fun a b => Path.isBefore a.1 b.1

section SourcesAt

variable {path : String} {tree : FileTree}

theorem at?_of_mem_sourcesAt (htree : tree.IsProper) {source : List String × FileContent}
    (h : source ∈ sourcesAt path tree) : tree.at? source.1 = some (file source.2) := by
  cases tree with
  | file content =>
    rw [sourcesAt] at h
    split at h
    · obtain rfl := List.mem_singleton.1 h
      rfl
    · cases h
  | directory entries =>
    rw [sourcesAt, List.mem_mergeSort] at h
    exact htree.at?_of_mem_sources source (by rwa [sources])

theorem nodup_sourcesAt (htree : tree.IsProper) : ((sourcesAt path tree).map Prod.fst).Nodup := by
  cases tree with
  | file content =>
    rw [sourcesAt]
    split
    · exact List.nodup_singleton _
    · exact List.nodup_nil
  | directory entries =>
    have hnodup := htree.nodup_sources
    rw [sources] at hnodup
    rw [sourcesAt]
    exact ((List.mergeSort_perm _ _).map Prod.fst).nodup_iff.2 hnodup

theorem sourcesAt_mapContents (change : List String → FileContent → FileContent) :
    sourcesAt path (tree.mapContents change) =
      (sourcesAt path tree).map fun source => (source.1, change source.1 source.2) := by
  cases tree with
  | file content =>
    rw [mapContents_file, sourcesAt, sourcesAt]
    split
    · rfl
    · rfl
  | directory entries =>
    have hsources := sources_mapContents change (directory entries)
    rw [mapContents_directory, sources, sources] at hsources
    rw [mapContents_directory, sourcesAt, sourcesAt, hsources]
    exact (List.map_mergeSort (f := fun source : List String × FileContent =>
      (source.1, change source.1 source.2)) fun _ _ _ _ => rfl).symm

end SourcesAt

section Collect

variable {root : FileTree} {path : String} {trail : List (String × FileTree)}

theorem collectSources_eq (h : root.trail? path = .ok trail) :
    collectSources root.find? path = (sourcesAt path (root.here trail)).map fun source =>
      (Path.descend path source.1, source.2) := by
  rw [collectSources, find?_of_trail h]
  cases root.here trail with
  | file content =>
    rw [sourcesAt]
    dsimp only
    split
    · rfl
    · rfl
  | directory entries => rw [sourcesAt]

theorem collectSources_of_error {cause : AccessError} (h : root.trail? path = .error cause) :
    collectSources root.find? path = [] := by
  rw [collectSources, find?, h]
  rfl

/-- A source file is found at its place below the path that it was collected from. -/
theorem exists_trail_of_mem_sourcesAt (hroot : root.IsProper) (h : root.trail? path = .ok trail)
    {source : List String × FileContent} (hsource : source ∈ sourcesAt path (root.here trail)) :
    ∃ longer, root.trail? (Path.descend path source.1) = .ok longer ∧
      location longer = location trail ++ source.1 ∧ root.here longer = file source.2 :=
  have htree := hroot.here (isTrail_of_trail? h)
  exists_trail_descend htree h (at?_of_mem_sourcesAt htree hsource)

/-- The paths that are collected lead to the files that stand beside them. -/
theorem find?_of_mem_collectSources (hroot : root.IsProper) {source : String × FileContent}
    (h : source ∈ collectSources root.find? path) : root.find? source.1 = .ok (file source.2) := by
  cases htrail : root.trail? path with
  | error cause =>
    rw [collectSources_of_error htrail] at h
    cases h
  | ok trail =>
    rw [collectSources_eq htrail] at h
    obtain ⟨below, hbelow, rfl⟩ := List.mem_map.1 h
    obtain ⟨longer, hlonger, -, hhere⟩ := exists_trail_of_mem_sourcesAt hroot htrail hbelow
    rw [find?_of_trail hlonger, hhere]

/-- What is collected beside a path is what is read at it. -/
theorem readSource_of_mem_collectSources (hroot : root.IsProper) {source : String × FileContent}
    (h : source ∈ collectSources root.find? path) :
    readSource root.find? source.1 = source.2.read := by
  rw [readSource, find?_of_mem_collectSources hroot h]

/-- No file is collected twice, by whichever path. -/
theorem pairwise_locate?_collectSources (hroot : root.IsProper) :
    (collectSources root.find? path).Pairwise fun a b =>
      root.locate? a.1 ≠ root.locate? b.1 := by
  cases htrail : root.trail? path with
  | error cause =>
    rw [collectSources_of_error htrail]
    exact List.Pairwise.nil
  | ok trail =>
    have hnodup : ((sourcesAt path (root.here trail)).map Prod.fst).Nodup :=
      nodup_sourcesAt (hroot.here (isTrail_of_trail? htrail))
    rw [collectSources_eq htrail, List.pairwise_map]
    refine (List.pairwise_map.1 hnodup).imp_of_mem fun hsource hsource' hne heq => hne ?_
    -- The names below the path are the end of the location.
    obtain ⟨longer, hlonger, hlocation, -⟩ := exists_trail_of_mem_sourcesAt hroot htrail hsource
    obtain ⟨longer', hlonger', hlocation', -⟩ := exists_trail_of_mem_sourcesAt hroot htrail hsource'
    rw [locate?_of_trail hlonger, locate?_of_trail hlonger', hlocation, hlocation'] at heq
    exact List.append_cancel_left (Option.some.inj heq)

/-- No path is collected twice. -/
theorem nodup_collectSources (hroot : root.IsProper) :
    ((collectSources root.find? path).map Prod.fst).Nodup :=
  List.pairwise_map.2 ((pairwise_locate?_collectSources hroot).imp fun hne heq =>
    hne (congrArg root.locate? heq))

/-- From a tree with other contents the same paths are collected, with the contents that are at
their locations. -/
theorem collectSources_mapContents (hroot : root.IsProper)
    {change : List String → FileContent → FileContent} {changed : FileContent → FileContent}
    (h : ∀ source ∈ collectSources root.find? path, ∀ place,
      root.locate? source.1 = some place → change place source.2 = changed source.2) :
    collectSources (root.mapContents change).find? path =
      (collectSources root.find? path).map fun source => (source.1, changed source.2) := by
  have htrail' := trail?_mapContents change root path
  cases htrail : root.trail? path with
  | error cause =>
    rw [htrail] at htrail'
    rw [collectSources_of_error htrail, collectSources_of_error htrail']
    rfl
  | ok trail =>
    rw [htrail] at htrail'
    rw [collectSources_eq htrail] at h ⊢
    rw [collectSources_eq htrail', here_mapTrail, sourcesAt_mapContents, List.map_map, List.map_map]
    refine List.map_congr_left fun source hsource => ?_
    obtain ⟨longer, hlonger, hlocation, -⟩ := exists_trail_of_mem_sourcesAt hroot htrail hsource
    have hplace := locate?_of_trail hlonger
    rw [hlocation] at hplace
    exact Prod.ext rfl (h _ (List.mem_map_of_mem hsource) _ hplace)

end Collect

/-! ## A directory with two source files -/

/-- The directory `src` with two files in it. -/
def FileTree.pair (first second : FileContent) : FileTree :=
  directory [("src", directory [("a.sap", file first), ("b.sap", file second)])]

section Pair

variable (first second : FileContent)

theorem FileTree.isProper_pair : (pair first second).IsProper := by
  have hsrc : Path.IsName "src" := by decide
  have ha : Path.IsName "a.sap" := by decide
  have hb : Path.IsName "b.sap" := by decide
  refine .directory (by simp) (by simp [hsrc]) ?_
  refine List.forall_mem_singleton.2 (.directory (by simp) (by simp [ha, hb]) ?_)
  simp [IsProper.file]

theorem collectSources_pair :
    collectSources (pair first second).find? "src" =
      [("src/a.sap", first), ("src/b.sap", second)] := by
  have hbefore : Path.isBefore ["a.sap"] ["b.sap"] = true := by decide +kernel
  have hpairwise : [(["a.sap"], first), (["b.sap"], second)].Pairwise
      fun a b => Path.isBefore a.1 b.1 = true := List.pairwise_pair.2 hbefore
  rw [collectSources_eq rfl, here, sourcesAt, sourcesAmong_eq_flatMap]
  have hsources : [("a.sap", file first), ("b.sap", file second)].flatMap entrySources =
      [(["a.sap"], first), (["b.sap"], second)] := rfl
  rw [hsources, List.mergeSort_of_pairwise hpairwise]
  rfl

theorem readSource_pair_first :
    readSource (pair first second).find? "src/a.sap" = first.read := rfl

theorem readSource_pair_second :
    readSource (pair first second).find? "src/b.sap" = second.read := rfl

end Pair

end DeclLang
