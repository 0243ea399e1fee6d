import DeclLang.FileTree.Source
import DeclLang.Proofs.FileTree.Proper
import Mathlib.Data.List.Lex

/-!
# Names of source files, and their order

`Path.HasExtension` says what the extension of a name is, and `isSourceName_iff` that source files
are told by it.  `Path.components` are the parts of a path that count: what is below a directory goes
on behind the components of its path (`Path.components_descend`), however that is written.

Rows of names are compared one by one, and names character by character (`Path.Precedes`).  This is a
total order (`Path.isBefore_total`, `Path.isBefore_trans`, `Path.isBefore_antisymm`), which what
stands in front does not change (`Path.Precedes.append_left`).
-/

namespace DeclLang

/-! ## Extensions -/

/-- A name has an extension if the last dot in it is in front of the extension, and something is in
front of the dot. -/
def Path.HasExtension (name extension : String) : Prop :=
  ∃ stem, stem ≠ "" ∧ '.' ∉ extension.toList ∧ name = stem ++ "." ++ extension

theorem isSourceName_iff {name : String} :
    isSourceName name = true ↔ Path.HasExtension name "sap" := by
  have hdot : '.' ∉ "sap".toList := by decide
  rw [isSourceName, Bool.and_eq_true, List.isSuffixOf_iff_suffix, bne_iff_ne]
  constructor
  · rintro ⟨⟨stem, hstem⟩, hne⟩
    refine ⟨String.ofList stem, ?_, hdot, ?_⟩
    · intro hnil
      apply hne
      rw [← String.toList_inj, ← hstem, ← String.toList_ofList (l := stem), hnil]
      rfl
    · rw [← String.toList_inj, ← hstem]
      simp
  · rintro ⟨stem, hstem, -, rfl⟩
    refine ⟨⟨stem.toList, by simp⟩, ?_⟩
    intro heq
    apply hstem
    rw [String.append_assoc] at heq
    have hlength := congrArg String.length heq
    rw [String.length_append] at hlength
    have hsap : ("." ++ "sap").length = ".sap".length := by decide
    exact String.length_eq_zero_iff.1 (by omega)

/-! ## Components -/

namespace Path

/-- The segments of a path that count.  Empty segments do not, nor do dots behind the first
segment. -/
def components (path : String) : List String :=
  ((segments path).take 1).filter (· != "") ++
    ((segments path).drop 1).filter fun segment => segment != "" && segment != "."

theorem components_child {name : String} (hname : IsName name) (path : String) :
    components (child path name) = components path ++ [name] := by
  have hempty : (name != "") = true := bne_iff_ne.2 hname.ne_empty
  have hhere : (name != ".") = true := bne_iff_ne.2 hname.ne_here
  rcases segments_child path hname.slash_notMem with hchild | ⟨outer, hpath, hchild⟩
  · rw [components, components, hchild]
    cases segments path with
    | nil => simp [hempty]
    | cons first more => simp [hempty, hhere]
  · rw [components, components, hchild, hpath]
    cases outer with
    | nil => simp [hempty]
    | cons first more => simp [hempty, hhere]

theorem components_descend {names : List String} (hnames : ∀ name ∈ names, IsName name)
    (path : String) : components (descend path names) = components path ++ names := by
  induction names generalizing path with
  | nil => exact (List.append_nil _).symm
  | cons name names ih =>
    obtain ⟨hname, hmore⟩ := List.forall_mem_cons.1 hnames
    have hdescend : descend path (name :: names) = descend (child path name) names := rfl
    rw [hdescend, ih hmore, components_child hname, List.append_assoc, List.singleton_append]

/-! ## Order -/

/-- A row of names precedes another if it ends where the other goes on, or if its name is less where
they first differ.  Names are compared character by character. -/
def Precedes : List String → List String → Prop := List.Lex fun a b => a.toList < b.toList

theorem Precedes.append_left {names others : List String} (h : Precedes names others)
    (front : List String) : Precedes (front ++ names) (front ++ others) :=
  List.Lex.append_left _ h front

theorem Precedes.trans {names others more : List String} (h : Precedes names others)
    (h' : Precedes others more) : Precedes names more :=
  List.lex_trans List.lt_trans h h'

theorem Precedes.ne {names others : List String} (h : Precedes names others) : names ≠ others := by
  rintro rfl
  exact List.lex_irrefl (fun a => List.lt_irrefl a.toList) _ h

/-- Of two different rows of names one precedes the other. -/
theorem precedes_trichotomy (names others : List String) :
    Precedes names others ∨ names = others ∨ Precedes others names := by
  classical
  by_contra hnone
  obtain ⟨hnot, hne, hnot'⟩ : _ ∧ _ ∧ _ := by simpa only [not_or] using hnone
  refine hne (List.lex_trichotomous (fun a b hab hba => ?_) hnot' hnot)
  exact String.toList_injective (List.le_antisymm (List.not_lt.1 hba) (List.not_lt.1 hab))

theorem isBefore_iff {names others : List String} :
    isBefore names others = true ↔ Precedes names others ∨ names = others := by
  induction names generalizing others with
  | nil =>
    cases others with
    | nil => exact iff_of_true rfl (.inr rfl)
    | cons b others => exact iff_of_true rfl (.inl .nil)
  | cons a names ih =>
    cases others with
    | nil => exact iff_of_false Bool.false_ne_true (not_or.2 ⟨nofun, List.cons_ne_nil _ _⟩)
    | cons b others =>
      have hlt : (String.decidableLT a b).decide = true ↔ a.toList < b.toList :=
        decide_eq_true_iff
      rw [isBefore, Bool.or_eq_true, Bool.and_eq_true, beq_iff_eq, hlt, ih, Precedes,
        List.cons_lex_cons_iff, List.cons.injEq]
      tauto

theorem isBefore_trans (names others more : List String) (h : isBefore names others = true)
    (h' : isBefore others more = true) : isBefore names more = true := by
  rw [isBefore_iff] at h h' ⊢
  rcases h with h | rfl
  · rcases h' with h' | rfl
    · exact .inl (h.trans h')
    · exact .inl h
  · exact h'

theorem isBefore_total (names others : List String) :
    (isBefore names others || isBefore others names) = true := by
  rw [Bool.or_eq_true, isBefore_iff, isBefore_iff]
  rcases precedes_trichotomy names others with h | rfl | h
  · exact .inl (.inl h)
  · exact .inl (.inr rfl)
  · exact .inr (.inl h)

theorem isBefore_antisymm {names others : List String} (h : isBefore names others = true)
    (h' : isBefore others names = true) : names = others := by
  rw [isBefore_iff] at h h'
  rcases h with h | rfl
  · rcases h' with h' | rfl
    · exact absurd rfl (h.trans h').ne
    · rfl
  · rfl

end Path

end DeclLang
