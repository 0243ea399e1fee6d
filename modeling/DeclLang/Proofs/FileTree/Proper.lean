import DeclLang.Proofs.FileTree.Trail

/-!
# Proper file trees

In a file tree the names in a directory are all different, and each is one that a path can name:
it has no slash in it, and it is none of the segments that mean something else
(`FileTree.IsProper`).  So the path that is made from a directory and some names below it leads to
what is found there by the names (`exists_trail_descend`).
-/

namespace DeclLang

/-! ## Segments of paths -/

namespace Path

/-- The names that an entry of a directory can have. -/
structure IsName (name : String) : Prop where
  ne_empty : name ≠ ""
  ne_here : name ≠ "."
  ne_outer : name ≠ ".."
  slash_notMem : '/' ∉ name.toList

instance (name : String) : Decidable (IsName name) :=
  decidable_of_iff (name ≠ "" ∧ name ≠ "." ∧ name ≠ ".." ∧ '/' ∉ name.toList)
    ⟨fun ⟨hempty, hhere, houter, hslash⟩ => ⟨hempty, hhere, houter, hslash⟩,
      fun h => ⟨h.ne_empty, h.ne_here, h.ne_outer, h.slash_notMem⟩⟩

theorem split_ne_nil (cs : List Char) : split cs ≠ [] := by
  cases cs with
  | nil => nofun
  | cons c cs =>
    rw [split]
    split
    · nofun
    · split <;> nofun

/-- A slash separates the segments before it from those behind it. -/
theorem split_append_slash (before behind : List Char) :
    split (before ++ '/' :: behind) = split before ++ split behind := by
  induction before with
  | nil => rfl
  | cons c cs ih =>
    rw [List.cons_append, split, split, ih]
    split
    · rfl
    · cases h : split cs with
      | nil => exact absurd h (split_ne_nil cs)
      | cons segment segments => rfl

theorem split_of_notMem {cs : List Char} (h : '/' ∉ cs) : split cs = [cs] := by
  induction cs with
  | nil => rfl
  | cons c cs ih =>
    obtain ⟨hc, hcs⟩ := not_or.1 (mt List.mem_cons.2 h)
    rw [split, if_neg (Ne.symm hc), ih hcs]

/-- The path of an entry goes on behind the segments of its directory, of which the last may be
empty and is filled then. -/
theorem segments_child (path : String) {name : String} (hname : '/' ∉ name.toList) :
    segments (child path name) = segments path ++ [name] ∨
      ∃ outer, segments path = outer ++ [""] ∧ segments (child path name) = outer ++ [name] := by
  unfold child
  split
  · next hlast =>
    obtain ⟨before, hbefore⟩ := List.getLast?_eq_some_iff.1 hlast
    refine .inr ⟨(split before).map String.ofList, ?_, ?_⟩
    · rw [segments, hbefore, split_append_slash, List.map_append]
      rfl
    · rw [segments, String.toList_append, hbefore, List.append_assoc, List.singleton_append,
        split_append_slash, split_of_notMem hname, List.map_append, List.map_singleton,
        String.ofList_toList]
  · left
    have hslash : (path ++ "/" ++ name).toList = path.toList ++ '/' :: name.toList := by simp
    rw [segments, hslash, split_append_slash, split_of_notMem hname, List.map_append,
      List.map_singleton, String.ofList_toList, segments]

theorem exists_toList_child (path name : String) :
    ∃ more, (child path name).toList = path.toList ++ more := by
  unfold child
  split
  · exact ⟨_, String.toList_append⟩
  · exact ⟨'/' :: name.toList, by simp⟩

end Path

namespace FileTree

/-! ## Proper trees -/

/-- The file trees that there can be: the names in each directory are names, and all different. -/
inductive IsProper : FileTree → Prop
  | file (content : FileContent) : IsProper (file content)
  | directory {entries : List (String × FileTree)} (hnodup : (entries.map Prod.fst).Nodup)
      (hnames : ∀ entry ∈ entries, Path.IsName entry.1)
      (hentries : ∀ entry ∈ entries, IsProper entry.2) : IsProper (directory entries)

section Child

variable {tree child : FileTree} {entries : List (String × FileTree)} {name : String}

theorem exists_mem_of_child? (h : tree.child? name = some child) :
    ∃ entries, tree = directory entries ∧ (name, child) ∈ entries := by
  cases tree with
  | file content => cases h
  | directory entries =>
    obtain ⟨entry, hfound, rfl⟩ := Option.map_eq_some_iff.1 h
    have hname := List.find?_some hfound
    rw [← eq_of_beq hname]
    exact ⟨entries, rfl, List.mem_of_find?_eq_some hfound⟩

theorem child?_of_mem (hnodup : (entries.map Prod.fst).Nodup) (h : (name, child) ∈ entries) :
    (directory entries).child? name = some child := by
  rw [child?, Option.map_eq_some_iff]
  refine ⟨(name, child), ?_, rfl⟩
  induction entries with
  | nil => cases h
  | cons entry more ih =>
    rw [List.map_cons, List.nodup_cons] at hnodup
    rcases List.mem_cons.1 h with rfl | h
    · exact List.find?_cons_of_pos (beq_self_eq_true name)
    · have hne : entry.1 ≠ name := by
        rintro rfl
        exact hnodup.1 (List.mem_map.2 ⟨_, h, rfl⟩)
      rw [List.find?_cons_of_neg (by simpa using hne)]
      exact ih hnodup.2 h

theorem IsProper.of_child? (htree : tree.IsProper) (h : tree.child? name = some child) :
    Path.IsName name ∧ child.IsProper := by
  obtain ⟨entries, rfl, hmem⟩ := exists_mem_of_child? h
  cases htree with
  | directory hnodup hnames hentries => exact ⟨hnames _ hmem, hentries _ hmem⟩

/-- A tree stays proper when its files get other contents. -/
theorem IsProper.mapContents (htree : tree.IsProper)
    (change : List String → FileContent → FileContent) : (tree.mapContents change).IsProper := by
  induction htree generalizing change with
  | file content =>
    rw [mapContents_file]
    exact .file _
  | directory hnodup hnames _ ih =>
    rw [mapContents_directory]
    refine .directory ?_ ?_ ?_
    · rwa [List.map_map]
    · rw [List.forall_mem_map]
      exact hnames
    · rw [List.forall_mem_map]
      exact fun entry hentry => ih entry hentry _

end Child

/-! ## Trails in proper trees -/

section Follow

variable {root tree : FileTree} {trail outcome : List (String × FileTree)} {name path : String}

theorem follow_append (root : FileTree) (trail : List (String × FileTree))
    (segments more : List String) :
    follow root trail (segments ++ more) =
      (follow root trail segments).bind fun trail => follow root trail more := by
  induction segments generalizing trail with
  | nil => rfl
  | cons segment rest ih =>
    rw [List.cons_append, follow.eq_def, follow.eq_def root trail (segment :: rest)]
    dsimp only
    cases here root trail with
    | file content => rfl
    | directory entries =>
      dsimp only
      split
      · exact ih trail
      · split
        · cases trail with
          | nil => rfl
          | cons step outer => exact ih outer
        · cases (directory entries).child? segment with
          | none => rfl
          | some tree => exact ih _

/-- The name of an entry leads to the entry. -/
theorem follow_name (hname : Path.IsName name) (h : (here root trail).child? name = some tree) :
    follow root trail [name] = .ok ((name, tree) :: trail) := by
  obtain ⟨entries, hhere, -⟩ := exists_mem_of_child? h
  rw [hhere] at h
  rw [follow.eq_def, hhere]
  dsimp only
  rw [if_neg (not_or.2 ⟨hname.ne_empty, hname.ne_here⟩), if_neg hname.ne_outer, h]
  rfl

/-- An empty segment leads nowhere else. -/
theorem follow_empty (h : follow root trail [""] = .ok outcome) : outcome = trail := by
  rw [follow.eq_def] at h
  cases hhere : here root trail with
  | file content =>
    rw [hhere] at h
    cases h
  | directory entries =>
    rw [hhere] at h
    exact (Except.ok.inj h).symm

/-- The path of an entry of a directory leads to the entry. -/
theorem trail?_child (hpath : root.trail? path = .ok trail) (hname : Path.IsName name)
    (h : (here root trail).child? name = some tree) :
    root.trail? (Path.child path name) = .ok ((name, tree) :: trail) := by
  unfold trail? at hpath ⊢
  split at hpath
  · cases hpath
  · next hstart =>
    obtain ⟨hne, hhead⟩ := not_or.1 hstart
    obtain ⟨c, cs, hcs⟩ : ∃ c cs, path.toList = c :: cs :=
      List.exists_cons_of_ne_nil fun hnil => hne (String.toList_eq_nil_iff.1 hnil)
    obtain ⟨more, hmore⟩ := Path.exists_toList_child path name
    have hchild : ¬ (Path.child path name = "" ∨
        (Path.child path name).toList.head? = some '/') := by
      rw [hcs] at hhead
      rw [← String.toList_eq_nil_iff, hmore, hcs]
      rintro (hnil | hslash)
      · cases hnil
      · exact hhead hslash
    rw [if_neg hchild]
    rcases Path.segments_child path hname.slash_notMem with
      hsegments | ⟨outer, houter, hsegments⟩
    · rw [hsegments, follow_append, hpath]
      exact follow_name hname h
    · rw [houter, follow_append] at hpath
      rw [hsegments, follow_append]
      cases hfollow : follow root [] outer with
      | error cause =>
        rw [hfollow] at hpath
        cases hpath
      | ok start =>
        rw [hfollow] at hpath
        obtain rfl := follow_empty hpath
        exact follow_name hname h

/-- A trail through a proper tree leads to a proper tree. -/
theorem IsProper.here (hroot : root.IsProper) (h : root.IsTrail trail) :
    (root.here trail).IsProper := by
  induction h with
  | start => exact hroot
  | step _ hchild ih => exact (ih.of_child? hchild).2

/-- The path that leads on from a directory through some names leads to what they name there. -/
theorem exists_trail_descend (hproper : (here root trail).IsProper)
    (hpath : root.trail? path = .ok trail) {names : List String}
    (h : (here root trail).at? names = some tree) :
    ∃ longer, root.trail? (Path.descend path names) = .ok longer ∧
      location longer = location trail ++ names ∧ here root longer = tree := by
  induction names generalizing path trail with
  | nil => exact ⟨trail, hpath, (List.append_nil _).symm, Option.some.inj h⟩
  | cons name more ih =>
    obtain ⟨child, hchild, hmore⟩ := Option.bind_eq_some_iff.1 h
    obtain ⟨hname, hchildProper⟩ := hproper.of_child? hchild
    have hproper' : (here root ((name, child) :: trail)).IsProper := hchildProper
    obtain ⟨longer, hlonger, hlocation, hhere⟩ :=
      ih hproper' (trail?_child hpath hname hchild) hmore
    refine ⟨longer, hlonger, ?_, hhere⟩
    rw [hlocation, location_cons, List.append_assoc]
    rfl

end Follow

end FileTree

end DeclLang
