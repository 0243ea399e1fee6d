import DeclLang.Proofs.FileTree.Contents
import Mathlib.Data.List.Basic

/-!
# Where paths lead

A path leads along a trail of entries, each in the directory before it (`IsTrail`), and the names on
the trail are the location of what the path leads to (`locate?`).  Names alone lead to it as well
(`at?_location`), so paths with one location lead to the same (`find?_eq_of_locate?_eq`), however
they are written.

Changing the contents of files moves nothing: every path has the location that it had before
(`locate?_mapContents`), and what it leads to is changed by what is asked for there
(`find?_mapContents`).  So writing to files in a row comes to one change of the contents
(`foldl_write`), in which each file has the text that was written last to its location
(`contentAfter`).
-/

namespace DeclLang.FileTree

/-! ## Locations -/

/-- The names that a trail leads along, from the start. -/
def location (trail : List (String × FileTree)) : List String := trail.reverse.map Prod.fst

theorem location_cons (step : String × FileTree) (trail : List (String × FileTree)) :
    location (step :: trail) = location trail ++ [step.1] := by
  rw [location, List.reverse_cons, List.map_append]
  rfl

/-- The location of what a path leads to, if it leads to anything. -/
def locate? (root : FileTree) (path : String) : Option (List String) :=
  (root.trail? path).toOption.map location

/-- What names lead to, one directory after the other. -/
def at? : List String → FileTree → Option FileTree
  | [], tree => some tree
  | name :: more, tree => (tree.child? name).bind (at? more)

theorem at?_append (names more : List String) (tree : FileTree) :
    tree.at? (names ++ more) = (tree.at? names).bind (at? more) := by
  induction names generalizing tree with
  | nil => rfl
  | cons name names ih =>
    rw [List.cons_append, at?, at?]
    cases tree.child? name with
    | none => rfl
    | some child => exact ih child

/-! ## Trails -/

/-- Every step of a trail, of which the last comes first, is an entry of the directory before it. -/
inductive IsTrail (root : FileTree) : List (String × FileTree) → Prop
  | start : IsTrail root []
  | step {outer : List (String × FileTree)} {name : String} {tree : FileTree}
      (houter : IsTrail root outer) (h : (root.here outer).child? name = some tree) :
      IsTrail root ((name, tree) :: outer)

theorem IsTrail.of_follow {root : FileTree} {trail outcome : List (String × FileTree)}
    (htrail : root.IsTrail trail) {segments : List String}
    (h : follow root trail segments = .ok outcome) : root.IsTrail outcome := by
  induction segments generalizing trail with
  | nil =>
    obtain rfl := Except.ok.inj h
    exact htrail
  | cons segment more ih =>
    rw [follow.eq_def] at h
    dsimp only at h
    cases hhere : root.here trail with
    | file content =>
      rw [hhere] at h
      cases h
    | directory entries =>
      rw [hhere] at h
      dsimp only at h
      split at h
      · exact ih htrail h
      · split at h
        · cases htrail with
          | start => cases h
          | step houter _ => exact ih houter h
        · cases hchild : (directory entries).child? segment with
          | none =>
            rw [hchild] at h
            cases h
          | some tree =>
            rw [hchild] at h
            rw [← hhere] at hchild
            exact ih (htrail.step hchild) h

section Locate

variable {root tree : FileTree} {path other : String} {trail : List (String × FileTree)}

theorem isTrail_of_trail? (h : root.trail? path = .ok trail) : root.IsTrail trail := by
  unfold trail? at h
  split at h
  · cases h
  · exact IsTrail.start.of_follow h

theorem IsTrail.at?_location (h : root.IsTrail trail) :
    root.at? (location trail) = some (root.here trail) := by
  induction h with
  | start => rfl
  | step _ hchild ih =>
    rw [location_cons, at?_append, ih, Option.bind_some, at?, hchild]
    rfl

theorem locate?_of_trail (h : root.trail? path = .ok trail) :
    root.locate? path = some (location trail) := by
  rw [locate?, h]
  rfl

theorem find?_of_trail (h : root.trail? path = .ok trail) :
    root.find? path = .ok (root.here trail) := by
  rw [find?, h]
  rfl

theorem exists_trail_of_find? (h : root.find? path = .ok tree) :
    ∃ trail, root.trail? path = .ok trail ∧ root.here trail = tree := by
  unfold find? at h
  cases htrail : root.trail? path with
  | error cause =>
    rw [htrail] at h
    cases h
  | ok trail =>
    rw [htrail] at h
    exact ⟨trail, rfl, Except.ok.inj h⟩

/-- A path and the names of its location lead to the same. -/
theorem exists_locate?_of_find? (h : root.find? path = .ok tree) :
    ∃ place, root.locate? path = some place ∧ root.at? place = some tree := by
  obtain ⟨trail, htrail, rfl⟩ := exists_trail_of_find? h
  exact ⟨_, locate?_of_trail htrail, (isTrail_of_trail? htrail).at?_location⟩

/-- Paths with one location lead to the same. -/
theorem find?_eq_of_locate?_eq {tree' : FileTree} (h : root.find? path = .ok tree)
    (h' : root.find? other = .ok tree') (heq : root.locate? path = root.locate? other) :
    tree = tree' := by
  obtain ⟨place, hplace, htree⟩ := exists_locate?_of_find? h
  obtain ⟨place', hplace', htree'⟩ := exists_locate?_of_find? h'
  rw [hplace, hplace'] at heq
  rw [← Option.some.inj heq, htree] at htree'
  exact Option.some.inj htree'

end Locate

/-! ## Changed contents -/

section Map

variable (change : List String → FileContent → FileContent)

/-- The trail through the tree with changed contents. -/
def mapTrail : List (String × FileTree) → List (String × FileTree)
  | [] => []
  | (name, tree) :: outer =>
    (name, tree.mapContents fun more => change (location outer ++ name :: more)) :: mapTrail outer

theorem location_mapTrail (trail : List (String × FileTree)) :
    location (mapTrail change trail) = location trail := by
  induction trail with
  | nil => rfl
  | cons step outer ih => rw [mapTrail, location_cons, location_cons, ih]

theorem here_mapTrail (root : FileTree) (trail : List (String × FileTree)) :
    here (root.mapContents change) (mapTrail change trail) =
      (here root trail).mapContents fun more => change (location trail ++ more) := by
  cases trail with
  | nil => rfl
  | cons step outer =>
    simp only [mapTrail, here, location_cons, List.append_assoc, List.singleton_append]

theorem follow_mapContents (root : FileTree) (trail : List (String × FileTree))
    (segments : List String) :
    follow (root.mapContents change) (mapTrail change trail) segments =
      (follow root trail segments).map (mapTrail change) := by
  induction segments generalizing trail with
  | nil => rfl
  | cons segment more ih =>
    rw [follow.eq_def, follow.eq_def root trail]
    dsimp only
    rw [here_mapTrail]
    cases here root trail with
    | file content =>
      rw [mapContents_file]
      rfl
    | directory entries =>
      have hchild := child?_mapContents (fun more => change (location trail ++ more)) segment
        (directory entries)
      rw [mapContents_directory] at hchild ⊢
      dsimp only
      rw [hchild]
      split
      · exact ih trail
      · split
        · cases trail with
          | nil => rfl
          | cons step outer => exact ih outer
        · cases (directory entries).child? segment with
          | none => rfl
          | some tree => exact ih ((segment, tree) :: trail)

theorem trail?_mapContents (root : FileTree) (path : String) :
    (root.mapContents change).trail? path = (root.trail? path).map (mapTrail change) := by
  unfold trail?
  split
  · rfl
  · exact follow_mapContents change root [] _

/-- Changed contents are at the locations of the old ones. -/
theorem locate?_mapContents (root : FileTree) (path : String) :
    (root.mapContents change).locate? path = root.locate? path := by
  rw [locate?, locate?, trail?_mapContents]
  cases root.trail? path with
  | error cause => rfl
  | ok trail => exact congrArg some (location_mapTrail change trail)

/-- A path leads nowhere for the reason that it had before, and else to what it led to with its
contents changed. -/
theorem find?_mapContents (root : FileTree) (path : String) :
    (root.mapContents change).find? path =
      (root.trail? path).map fun trail =>
        (root.here trail).mapContents fun more => change (location trail ++ more) := by
  rw [find?, trail?_mapContents]
  cases root.trail? path with
  | error cause => rfl
  | ok trail => exact congrArg Except.ok (here_mapTrail change root trail)

end Map

/-- The files of the tree with changed contents are those of the tree, at the same paths. -/
theorem find?_mapContents_eq_file_iff {root : FileTree} {path : String} {content : FileContent}
    {change : List String → FileContent → FileContent} :
    (root.mapContents change).find? path = .ok (file content) ↔
      ∃ place old, root.find? path = .ok (file old) ∧ root.locate? path = some place ∧
        change place old = content := by
  rw [find?_mapContents]
  constructor
  · intro h
    cases htrail : root.trail? path with
    | error cause =>
      rw [htrail] at h
      cases h
    | ok trail =>
      rw [htrail] at h
      have hhere := Except.ok.inj h
      dsimp only at hhere
      cases htree : root.here trail with
      | file old =>
        rw [htree, mapContents_file, FileTree.file.injEq, List.append_nil] at hhere
        exact ⟨_, old, by rw [find?_of_trail htrail, htree], locate?_of_trail htrail, hhere⟩
      | directory entries =>
        rw [htree, mapContents_directory] at hhere
        cases hhere
  · rintro ⟨place, old, hold, hplace, rfl⟩
    obtain ⟨trail, htrail, hhere⟩ := exists_trail_of_find? hold
    rw [locate?_of_trail htrail] at hplace
    obtain rfl := Option.some.inj hplace
    simp only [htrail, Except.map, hhere, mapContents_file, List.append_nil]

/-! ## Writing -/

/-- Writing to a path changes the contents at its location, and nothing if it leads nowhere. -/
theorem write_eq_mapContents (root : FileTree) (path : String) (content : FileContent) :
    root.write path content = root.mapContents fun place old =>
      if root.locate? path = some place then content else old := by
  rw [write, locate?]
  cases root.trail? path with
  | error cause => exact (mapContents_id root).symm
  | ok trail =>
    refine (setContent_eq_mapContents content (location trail) root).trans ?_
    congr 1
    funext place old
    simp only [Except.toOption, Option.map_some, Option.some.injEq, eq_comm]

theorem locate?_write (root : FileTree) (path : String) (content : FileContent) (other : String) :
    (root.write path content).locate? other = root.locate? other := by
  rw [write_eq_mapContents, locate?_mapContents]

/-- Writing to a file leaves what stands at other locations alone. -/
theorem find?_write_of_ne {root : FileTree} {path other : String} {content old : FileContent}
    (h : root.find? other = .ok (file old)) (hne : root.locate? path ≠ root.locate? other) :
    (root.write path content).find? other = .ok (file old) := by
  obtain ⟨place, hplace, -⟩ := exists_locate?_of_find? h
  rw [write_eq_mapContents, find?_mapContents_eq_file_iff]
  refine ⟨place, old, h, hplace, if_neg ?_⟩
  rwa [← hplace]

/-- What the file at a location holds after some writes. -/
def contentAfter (root : FileTree) (writes : List (String × String)) (place : List String)
    (content : FileContent) : FileContent :=
  writes.foldl (fun old w => if root.locate? w.1 = some place then .ofText w.2 else old) content

/-- Writing to files in a row is one change of contents. -/
theorem foldl_write (root : FileTree) (writes : List (String × String)) :
    writes.foldl (fun tree w => tree.write w.1 (.ofText w.2)) root =
      root.mapContents (root.contentAfter writes) := by
  induction writes generalizing root with
  | nil => exact (mapContents_id root).symm
  | cons w more ih =>
    rw [List.foldl_cons, ih, write_eq_mapContents, mapContents_mapContents]
    congr 1
    funext place content
    simp only [contentAfter, locate?_mapContents, List.foldl_cons]

section ContentAfter

variable {root : FileTree} {writes : List (String × String)} {place : List String}
  {content : FileContent}

/-- A file keeps its contents if nothing else is written to it. -/
theorem contentAfter_eq_self
    (h : ∀ w ∈ writes, root.locate? w.1 = some place → .ofText w.2 = content) :
    root.contentAfter writes place content = content := by
  induction writes with
  | nil => rfl
  | cons w more ih =>
    obtain ⟨hw, hmore⟩ := List.forall_mem_cons.1 h
    rw [contentAfter, List.foldl_cons]
    by_cases hplace : root.locate? w.1 = some place
    · rw [if_pos hplace, hw hplace]
      exact ih hmore
    · rw [if_neg hplace]
      exact ih hmore

/-- A file has the text that was written to it, if no other text was. -/
theorem contentAfter_of_mem {path text : String} (hmem : (path, text) ∈ writes)
    (hpath : root.locate? path = some place)
    (h : ∀ w ∈ writes, root.locate? w.1 = some place → w.2 = text) :
    root.contentAfter writes place content = .ofText text := by
  induction writes generalizing content with
  | nil => cases hmem
  | cons w more ih =>
    obtain ⟨hw, hmore⟩ := List.forall_mem_cons.1 h
    rw [contentAfter, List.foldl_cons]
    rcases List.mem_cons.1 hmem with rfl | hmem
    · rw [if_pos hpath]
      exact contentAfter_eq_self fun w hw hplace => congrArg _ (hmore w hw hplace)
    · exact ih hmem hmore

end ContentAfter

end DeclLang.FileTree
