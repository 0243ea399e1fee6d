import DeclLang.FileTree
import Mathlib.Tactic.Common

/-!
# The contents of the files of a tree

A file tree is its directories and the names in them, and what its files hold.  `mapContents`
changes what the files hold, each by its location, that is by the names that lead to it, and leaves
the directories and the names alone.  Giving one file new contents is such a change
(`setContent_eq_mapContents`), and so is one change after another (`mapContents_mapContents`).
-/

namespace DeclLang.FileTree

/-- What is shown of a directory may be taken for granted of its entries. -/
@[elab_as_elim, induction_eliminator]
theorem entryInduction {motive : FileTree → Prop} (file : ∀ content, motive (.file content))
    (directory : ∀ entries, (∀ entry ∈ entries, motive entry.2) → motive (.directory entries))
    (tree : FileTree) : motive tree :=
  @FileTree.rec motive (fun entries => ∀ entry ∈ entries, motive entry.2)
    (fun entry => motive entry.2) file directory (List.forall_mem_nil _)
    (fun _ _ hentry hmore => List.forall_mem_cons.2 ⟨hentry, hmore⟩) (fun _ _ h => h) tree

/-! ## Changing the contents of all files -/

mutual

/-- The tree in which every file has other contents, which may depend on its location. -/
def mapContents (change : List String → FileContent → FileContent) : FileTree → FileTree
  | file content => file (change [] content)
  | directory entries => directory (mapEntries change entries)

/-- The entries of a directory in which every file has other contents. -/
def mapEntries (change : List String → FileContent → FileContent) :
    List (String × FileTree) → List (String × FileTree)
  | [] => []
  | (name, tree) :: more =>
    (name, mapContents (fun location => change (name :: location)) tree) :: mapEntries change more

end

section Map

variable (change : List String → FileContent → FileContent)

theorem mapEntries_eq_map (entries : List (String × FileTree)) :
    mapEntries change entries = entries.map fun entry =>
      (entry.1, entry.2.mapContents fun location => change (entry.1 :: location)) := by
  induction entries with
  | nil => rfl
  | cons entry more ih => rw [mapEntries, ih, List.map_cons]

theorem mapContents_file (content : FileContent) :
    (file content).mapContents change = file (change [] content) := by
  rw [mapContents]

theorem mapContents_directory (entries : List (String × FileTree)) :
    (directory entries).mapContents change = directory (entries.map fun entry =>
      (entry.1, entry.2.mapContents fun location => change (entry.1 :: location))) := by
  rw [mapContents, mapEntries_eq_map]

/-- The entries of a directory are found by the same names. -/
theorem child?_mapContents (name : String) (tree : FileTree) :
    (tree.mapContents change).child? name =
      (tree.child? name).map fun child =>
        child.mapContents fun location => change (name :: location) := by
  cases tree with
  | file content =>
    rw [mapContents_file]
    rfl
  | directory entries =>
    rw [mapContents_directory, child?, child?, List.find?_map, Function.comp_def]
    dsimp only
    cases hfound : entries.find? fun entry => entry.1 == name with
    | none => rfl
    | some entry =>
      have hname := List.find?_some hfound
      rw [← eq_of_beq hname]
      rfl

end Map

theorem mapContents_id (tree : FileTree) :
    (tree.mapContents fun _ content => content) = tree := by
  induction tree with
  | file content => exact mapContents_file _ content
  | directory entries ih =>
    rw [mapContents_directory]
    congr 1
    conv_rhs => rw [← List.map_id entries]
    exact List.map_congr_left fun entry hentry => Prod.ext rfl (ih entry hentry)

/-- One change after another is one change. -/
theorem mapContents_mapContents (tree : FileTree)
    (first second : List String → FileContent → FileContent) :
    (tree.mapContents first).mapContents second =
      tree.mapContents fun location content => second location (first location content) := by
  induction tree generalizing first second with
  | file content => simp only [mapContents_file]
  | directory entries ih =>
    simp only [mapContents_directory, List.map_map]
    congr 1
    exact List.map_congr_left fun entry hentry => Prod.ext rfl (ih entry hentry _ _)

/-! ## Changing the contents of one file -/

/-- Giving contents to the file at a location changes nothing elsewhere. -/
theorem setContent_eq_mapContents (content : FileContent) (names : List String) (tree : FileTree) :
    setContent content names tree =
      tree.mapContents fun location old => if location = names then content else old := by
  induction names generalizing tree with
  | nil =>
    cases tree with
    | file old => rw [setContent, mapContents_file, if_pos rfl]
    | directory entries =>
      rw [setContent, mapContents_directory]
      simp only [reduceCtorEq, if_false, mapContents_id]
      exact congrArg directory (List.map_id _).symm
  | cons name more ih =>
    cases tree with
    | file old =>
      rw [setContent, mapContents_file, if_neg (List.cons_ne_nil _ _).symm]
    | directory entries =>
      rw [setContent, mapContents_directory]
      congr 1
      refine List.map_congr_left fun entry _ => ?_
      by_cases hname : entry.1 = name
      · simp only [ih, hname, if_true, List.cons.injEq, true_and]
      · simp only [hname, if_false, List.cons.injEq, false_and, mapContents_id]

end DeclLang.FileTree
