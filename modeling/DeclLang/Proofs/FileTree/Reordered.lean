import DeclLang.Proofs.FileTree.Source
import Mathlib.Data.Option.Basic

/-!
# The order of the entries of a directory

Nothing is said about the order in which the entries of a directory are read.  Trees that differ in
nothing else are related by `FileTree.Reordered`: the entries of one directory are put in another
order, anywhere in the tree and any number of times.

Paths lead to the same in such trees, again up to the order of entries (`Reordered.find?`), and a
directory has the same source files in all of them (`Reordered.sources`).
-/

namespace DeclLang

namespace FileTree

/-! ## Finding entries -/

theorem child?_eq_some_iff {entries : List (String × FileTree)} {name : String} {child : FileTree}
    (hnodup : (entries.map Prod.fst).Nodup) :
    (directory entries).child? name = some child ↔ (name, child) ∈ entries := by
  constructor
  · intro h
    obtain ⟨_, heq, hmem⟩ := exists_mem_of_child? h
    rwa [directory.inj heq]
  · exact child?_of_mem hnodup

theorem child?_append_cons (before after : List (String × FileTree)) (name wanted : String)
    (tree : FileTree) :
    (directory (before ++ (name, tree) :: after)).child? wanted =
      ((directory before).child? wanted).or
        (if name = wanted then some tree else (directory after).child? wanted) := by
  rw [child?, child?, child?, List.find?_append, List.find?_cons]
  cases before.find? fun entry => entry.1 == wanted with
  | some entry => rfl
  | none =>
    by_cases hname : name = wanted
    · simp [hname]
    · simp [hname, beq_false_of_ne hname]

/-! ## Trees that differ in the order of entries -/

/-- `tree.Reordered other`: the trees differ only in the order of the entries of their
directories. -/
inductive Reordered : FileTree → FileTree → Prop where
  | refl (tree : FileTree) : Reordered tree tree
  | entries {entries others : List (String × FileTree)} (h : entries.Perm others) :
      Reordered (directory entries) (directory others)
  | inside {before after : List (String × FileTree)} {name : String} {tree other : FileTree}
      (h : Reordered tree other) :
      Reordered (directory (before ++ (name, tree) :: after))
        (directory (before ++ (name, other) :: after))
  | trans {tree between other : FileTree} (h : Reordered tree between)
      (h' : Reordered between other) : Reordered tree other

namespace Reordered

variable {tree other root reordered : FileTree}

/-! ## Directories stay directories -/

theorem eq_of_file {content : FileContent} (h : Reordered tree other) :
    tree = file content ↔ other = file content := by
  induction h with
  | refl => rfl
  | entries => exact iff_of_false nofun nofun
  | inside => exact iff_of_false nofun nofun
  | trans _ _ ih ih' => exact ih.trans ih'

theorem isProper (h : Reordered tree other) (htree : tree.IsProper) : other.IsProper := by
  induction h with
  | refl => exact htree
  | entries hperm =>
    cases htree with
    | directory hnodup hnames hentries =>
      refine .directory ((hperm.map Prod.fst).nodup_iff.1 hnodup) ?_ ?_
      · exact fun entry hentry => hnames entry (hperm.mem_iff.2 hentry)
      · exact fun entry hentry => hentries entry (hperm.mem_iff.2 hentry)
  | @inside before after name tree other _ ih =>
    cases htree with
    | directory hnodup hnames hentries =>
      simp only [List.map_append, List.map_cons, List.forall_mem_append, List.forall_mem_cons]
        at hnodup hnames hentries
      refine .directory ?_ ?_ ?_
      · simpa only [List.map_append, List.map_cons] using hnodup
      · simpa only [List.forall_mem_append, List.forall_mem_cons] using hnames
      · simp only [List.forall_mem_append, List.forall_mem_cons]
        exact ⟨hentries.1, ih hentries.2.1, hentries.2.2⟩
  | trans _ _ ih ih' => exact ih' (ih htree)

theorem rel_refl (found : Option FileTree) : Option.Rel Reordered found found := by
  cases found with
  | none => exact .none
  | some tree => exact .some (.refl tree)

/-- By a name one comes to reordered trees, or to nothing in both. -/
theorem child? (h : Reordered tree other) (htree : tree.IsProper) (name : String) :
    Option.Rel Reordered (tree.child? name) (other.child? name) := by
  induction h with
  | refl tree => exact rel_refl _
  | @entries entries others hperm =>
    have hnodup : (entries.map Prod.fst).Nodup := by
      cases htree with
      | directory hnodup => exact hnodup
    have hsame : (directory entries).child? name = (directory others).child? name := by
      refine Option.ext fun child => ?_
      rw [child?_eq_some_iff hnodup, hperm.mem_iff,
        child?_eq_some_iff ((hperm.map Prod.fst).nodup_iff.1 hnodup)]
    rw [hsame]
    exact rel_refl _
  | @inside before after inner tree other hinside _ =>
    rw [child?_append_cons, child?_append_cons]
    cases (directory before).child? name with
    | some child => exact .some (.refl child)
    | none =>
      rw [Option.none_or, Option.none_or]
      by_cases hname : inner = name
      · rw [if_pos hname, if_pos hname]
        exact .some hinside
      · rw [if_neg hname, if_neg hname]
        exact rel_refl _
  | @trans tree between other h h' ih ih' =>
    have hfirst := ih htree
    have hsecond := ih' (h.isProper htree)
    generalize tree.child? name = found at hfirst ⊢
    generalize between.child? name = foundBetween at hfirst hsecond
    generalize other.child? name = foundOther at hsecond ⊢
    cases hfirst with
    | none => exact hsecond
    | some hchild =>
      cases hsecond with
      | some hchild' => exact .some (hchild.trans hchild')

/-! ## Paths -/

/-- The steps of two trails lead by the same names to reordered trees. -/
def Steps (trail trail' : List (String × FileTree)) : Prop :=
  List.Forall₂ (fun step step' => step.1 = step'.1 ∧ step.2.IsProper ∧ Reordered step.2 step'.2)
    trail trail'

section Follow

variable {trail trail' : List (String × FileTree)}

theorem here (h : Reordered root reordered) (hroot : root.IsProper) (htrail : Steps trail trail') :
    (root.here trail).IsProper ∧ Reordered (root.here trail) (reordered.here trail') := by
  cases htrail with
  | nil => exact ⟨hroot, h⟩
  | cons hstep => exact hstep.2

/-- Following segments comes to the same steps, or fails for the same reason. -/
theorem follow (h : Reordered root reordered) (hroot : root.IsProper)
    (htrail : Steps trail trail') (segments : List String) :
    (∃ cause, root.follow trail segments = .error cause ∧
      reordered.follow trail' segments = .error cause) ∨
    ∃ longer longer', root.follow trail segments = .ok longer ∧
      reordered.follow trail' segments = .ok longer' ∧ Steps longer longer' := by
  induction segments generalizing trail trail' with
  | nil => exact .inr ⟨trail, trail', rfl, rfl, htrail⟩
  | cons segment more ih =>
    obtain ⟨hproper, hhere⟩ := h.here hroot htrail
    rw [FileTree.follow.eq_def root, FileTree.follow.eq_def reordered]
    dsimp only
    cases htree : root.here trail with
    | file content =>
      rw [hhere.eq_of_file.1 htree]
      exact .inl ⟨_, rfl, rfl⟩
    | directory entries =>
      cases htree' : reordered.here trail' with
      | file content =>
        rw [hhere.eq_of_file.2 htree'] at htree
        cases htree
      | directory others =>
        rw [htree, htree'] at hhere
        rw [htree] at hproper
        dsimp only
        split_ifs with hstay houter
        · exact ih htrail
        · cases htrail with
          | nil => exact .inl ⟨_, rfl, rfl⟩
          | cons _ houter => exact ih houter
        · have hchild := hhere.child? hproper segment
          cases hfound : (directory entries).child? segment with
          | none =>
            rw [hfound] at hchild
            cases hfound' : (directory others).child? segment with
            | none => exact .inl ⟨_, rfl, rfl⟩
            | some child =>
              rw [hfound'] at hchild
              cases hchild
          | some child =>
            rw [hfound] at hchild
            cases hfound' : (directory others).child? segment with
            | none =>
              rw [hfound'] at hchild
              cases hchild
            | some child' =>
              rw [hfound'] at hchild
              cases hchild with
              | some hchild =>
                exact ih (.cons ⟨rfl, (hproper.of_child? hfound).2, hchild⟩ htrail)

/-- A path leads to reordered trees, or nowhere for the same reason. -/
theorem find? (h : Reordered root reordered) (hroot : root.IsProper) (path : String) :
    (∃ cause, root.find? path = .error cause ∧ reordered.find? path = .error cause) ∨
    ∃ tree other, root.find? path = .ok tree ∧ reordered.find? path = .ok other ∧
      tree.IsProper ∧ Reordered tree other := by
  unfold FileTree.find? trail?
  split
  · exact .inl ⟨_, rfl, rfl⟩
  · rcases h.follow hroot .nil (Path.segments path) with
      ⟨cause, hfail, hfail'⟩ | ⟨longer, longer', hfollow, hfollow', hsteps⟩
    · rw [hfail, hfail']
      exact .inl ⟨cause, rfl, rfl⟩
    · rw [hfollow, hfollow']
      obtain ⟨hproper, hhere⟩ := h.here hroot hsteps
      exact .inr ⟨_, _, rfl, rfl, hproper, hhere⟩

end Follow

/-! ## Source files -/

/-- The source files of a directory are the same, in whatever order. -/
theorem sources (h : Reordered tree other) : tree.sources.Perm other.sources := by
  induction h with
  | refl => exact .refl _
  | entries hperm =>
    rw [FileTree.sources, FileTree.sources, sourcesAmong_eq_flatMap, sourcesAmong_eq_flatMap]
    exact hperm.flatMap_right entrySources
  | @inside before after name tree other hinside ih =>
    rw [FileTree.sources, FileTree.sources, sourcesAmong_eq_flatMap, sourcesAmong_eq_flatMap,
      List.flatMap_append, List.flatMap_append, List.flatMap_cons, List.flatMap_cons]
    refine .append_left _ (.append_right _ ?_)
    cases tree with
    | file content => rw [hinside.eq_of_file.1 rfl]
    | directory entries =>
      cases other with
      | file content => cases hinside.eq_of_file.2 rfl
      | directory others =>
        rw [FileTree.sources, FileTree.sources] at ih
        rw [entrySources, entrySources]
        split
        · exact .refl _
        · exact ih.map _
  | trans _ _ ih ih' => exact ih.trans ih'

end Reordered

end FileTree

end DeclLang
