import DeclLang.Printer.Outline
import DeclLang.Proofs.Decimal
import DeclLang.Proofs.Printer.Quoting
import DeclLang.Proofs.Text.Lines

/-!
# Outlines tell trees apart

The outline of a tree says all of it but the spans.  `Outline.rows` lists what is on its lines, each
with the width of its indentation, and the lines are read as these rows again
(`Outline.map_unindented_lines`): no entry begins with a space, and none has a line feed if no name
has one.

The rows in turn tell the structure of the tree (`Outline.sameStructure_of_rows_eq`), also where
nothing is indented: the title of the declarations ends the imports, the entry that says that there is
nothing is not one of an import or a declaration, and the head and the value of a declaration say all
of it.  `Outline.Opens` keeps them apart by the characters that they begin with.
-/

namespace DeclLang

namespace Outline

variable {w : Nat}

/-! ## What is on the lines -/

/-- The rows below a title; if there are none, one row says so. -/
def rowsBelow (w : Nat) (rows : List (Nat × String)) : List (Nat × String) :=
  if rows = [] then [(2 * w, noEntry.text)] else rows

/-- The row of an import. -/
def importRow (w : Nat) (path : String) : Nat × String := (2 * w, Quoted.encode .double path)

/-- The row that tells the kind and the name of a declaration. -/
def headRow (w : Nat) (d : Declaration) : Nat × String := (2 * w, d.kind.name ++ " " ++ d.name)

/-- The row that tells the value of a declaration. -/
def valueRow (w : Nat) (d : Declaration) : Nat × String := (3 * w, literal d.value)

/-- The rows of a declaration. -/
def declarationRows (w : Nat) (d : Declaration) : List (Nat × String) := [headRow w d, valueRow w d]

/-- What is on the lines of an outline: the width of the indentation, and what is behind it. -/
def rows (w : Nat) (file : SourceFile) : List (Nat × String) :=
  [(0, "SourceFile"), (w, "imports")] ++
    rowsBelow w (file.importPaths.map (importRow w)) ++
    (w, "declarations") :: rowsBelow w (file.declarationNodes.flatMap (declarationRows w))

/-- The number of spaces that a line begins with, and the text behind them. -/
def unindented (line : String) : Nat × String :=
  ((line.toList.takeWhile (· == ' ')).length, .ofList (line.toList.dropWhile (· == ' ')))

/-- The row of an entry. -/
def Entry.row (w : Nat) (entry : Entry) : Nat × String := (entry.depth * w, entry.text)

theorem unindented_line {entry : Entry} (h : EndsRun (· == ' ') entry.text.toList) :
    unindented (entry.line w) = entry.row w := by
  have hspaces : ∀ c ∈ List.replicate (entry.depth * w) ' ', (c == ' ') = true :=
    List.forall_mem_replicate.2 (.inr rfl)
  rw [unindented, Entry.line, String.toList_append, Align.spaces, String.toList_ofList,
    takeWhile_append_of_endsRun hspaces h, dropWhile_append_of_endsRun hspaces h,
    List.length_replicate, String.ofList_toList, Entry.row]

theorem map_row_titled (title : String) (entries : List Entry) :
    (titled title entries).map (Entry.row w) =
      (w, title) :: rowsBelow w (entries.map (Entry.row w)) := by
  cases entries <;> simp [titled, rowsBelow, Entry.row, noEntry]

theorem map_row_entries (w : Nat) (file : SourceFile) :
    (entries file).map (Entry.row w) = rows w file := by
  have himports : (file.importPaths.map importEntry).map (Entry.row w) =
      file.importPaths.map (importRow w) := by
    rw [List.map_map]
    rfl
  have hdeclarations : (file.declarationNodes.flatMap declarationEntries).map (Entry.row w) =
      file.declarationNodes.flatMap (declarationRows w) := by
    rw [List.map_flatMap]
    rfl
  rw [entries, List.map_cons, List.map_append, map_row_titled, map_row_titled, himports,
    hdeclarations, rows, Entry.row, Nat.zero_mul]
  rfl

/-! ## What entries begin with -/

/-- The text of an entry begins with the character `c`, which is no space, and has no line feed. -/
structure Opens (c : Char) (text : String) : Prop where
  head?_eq : text.toList.head? = some c
  ne_space : c ≠ ' '
  lineFeed_notMem : '\n' ∉ text.toList

theorem Opens.endsRun {c : Char} {text : String} (h : Opens c text) :
    EndsRun (· == ' ') text.toList := by
  rw [EndsRun, h.head?_eq]
  simpa using h.ne_space

/-- Texts that begin differently differ. -/
theorem Opens.ne {c d : Char} {text other : String} (h : Opens c text) (hother : Opens d other)
    (hne : c ≠ d) : text ≠ other := by
  rintro rfl
  exact hne (Option.some.inj (h.head?_eq.symm.trans hother.head?_eq))

theorem opens_encode (value : String) : Opens '"' (Quoted.encode .double value) := by
  refine ⟨?_, by decide, Quoted.lineFeed_notMem_encode .double value⟩
  rw [Quoted.encode, String.toList_ofList]
  rfl

theorem opens_noEntry : Opens '(' noEntry.text := ⟨by decide, by decide, by decide⟩

theorem opens_declarations : Opens 'd' "declarations" := ⟨by decide, by decide, by decide⟩

theorem exists_opens_head {d : Declaration} (h : '\n' ∉ d.name.toList) :
    ∃ c, c ≠ '(' ∧ Opens c (d.kind.name ++ " " ++ d.name) := by
  cases hkind : d.kind with
  | func => exact ⟨'F', by decide, by simp [Declaration.Kind.name], by decide,
      by simp [Declaration.Kind.name, h]⟩
  | var => exact ⟨'V', by decide, by simp [Declaration.Kind.name], by decide,
      by simp [Declaration.Kind.name, h]⟩

theorem exists_opens_literal (value : Literal) : ∃ c, c ≠ '(' ∧ Opens c (literal value) := by
  cases value with
  | integer n =>
    have hdigits := Decimal.lineFeed_notMem_toString n.toInt
    refine ⟨'I', by decide, by simp [literal, Literal.kindName], by decide, ?_⟩
    simpa [literal, Literal.kindName] using hdigits
  | string text =>
    have hquoted := Quoted.lineFeed_notMem_encode .double text
    refine ⟨'S', by decide, by simp [literal, Literal.kindName], by decide, ?_⟩
    simpa [literal, Literal.kindName] using hquoted

theorem mem_rowsBelow {row : Nat × String} {rows : List (Nat × String)}
    (h : row ∈ rowsBelow w rows) : row = (2 * w, noEntry.text) ∨ row ∈ rows := by
  unfold rowsBelow at h
  split at h
  · exact .inl (List.mem_singleton.1 h)
  · exact .inr h

theorem opens_importRow {paths : List String} {row : Nat × String}
    (h : row ∈ paths.map (importRow w)) : Opens '"' row.2 := by
  obtain ⟨path, -, rfl⟩ := List.mem_map.1 h
  exact opens_encode path

theorem exists_opens_declarationRow {ds : List Declaration}
    (hnames : ∀ d ∈ ds, '\n' ∉ d.name.toList) {row : Nat × String}
    (h : row ∈ ds.flatMap (declarationRows w)) :
    ∃ c, c ≠ '(' ∧ Opens c row.2 := by
  obtain ⟨d, hd, hrow⟩ := List.mem_flatMap.1 h
  rcases List.mem_pair.1 hrow with rfl | rfl
  · exact exists_opens_head (hnames d hd)
  · exact exists_opens_literal d.value

theorem exists_opens_row {file : SourceFile}
    (hnames : ∀ d ∈ file.declarationNodes, '\n' ∉ d.name.toList) {row : Nat × String}
    (h : row ∈ rows w file) : ∃ c, Opens c row.2 := by
  rw [rows, List.mem_append, List.mem_append, List.mem_pair, List.mem_cons] at h
  rcases h with ((rfl | rfl) | himport) | rfl | hdeclaration
  · exact ⟨'S', by decide, by decide, by decide⟩
  · exact ⟨'i', by simp, by decide, by simp⟩
  · rcases mem_rowsBelow himport with rfl | hrow
    · exact ⟨_, opens_noEntry⟩
    · exact ⟨_, opens_importRow hrow⟩
  · exact ⟨_, opens_declarations⟩
  · rcases mem_rowsBelow hdeclaration with rfl | hrow
    · exact ⟨_, opens_noEntry⟩
    · obtain ⟨c, -, hopens⟩ := exists_opens_declarationRow hnames hrow
      exact ⟨c, hopens⟩

/-! ## The lines of an outline -/

section Lines

variable {file : SourceFile} (hnames : ∀ d ∈ file.declarationNodes, '\n' ∉ d.name.toList)

include hnames

theorem exists_opens_entry {entry : Entry} (h : entry ∈ entries file) :
    ∃ c, Opens c entry.text := by
  have hrow : entry.row 0 ∈ rows 0 file := by
    rw [← map_row_entries]
    exact List.mem_map_of_mem h
  exact exists_opens_row hnames hrow

theorem cutAtFeeds_outline (style : Style) :
    Lines.CutAtFeeds (file.outline style)
      ((entries file).map (Entry.line style.indentWidth)) := by
  refine ⟨rfl, List.forall_mem_map.2 fun entry hentry => ?_⟩
  obtain ⟨c, hopens⟩ := exists_opens_entry hnames hentry
  simp [Entry.line, Align.spaces, hopens.lineFeed_notMem]

theorem map_unindented_lines (w : Nat) :
    ((entries file).map (Entry.line w)).map unindented = rows w file := by
  rw [List.map_map, ← map_row_entries]
  refine List.map_congr_left fun entry hentry => ?_
  obtain ⟨c, hopens⟩ := exists_opens_entry hnames hentry
  exact unindented_line hopens.endsRun

end Lines

/-! ## Rows tell the structure -/

theorem rowsBelow_injective {rows others : List (Nat × String)}
    (hrows : (2 * w, noEntry.text) ∉ rows) (hothers : (2 * w, noEntry.text) ∉ others)
    (h : rowsBelow w rows = rowsBelow w others) : rows = others := by
  unfold rowsBelow at h
  split at h <;> split at h
  · simp_all
  · rw [← h] at hothers
    exact absurd List.mem_cons_self hothers
  · rw [h] at hrows
    exact absurd List.mem_cons_self hrows
  · exact h

theorem importRow_injective (w : Nat) : Function.Injective (importRow w) := by
  intro path other h
  exact Quoted.encode_injective .double (Prod.mk.inj h).2

theorem literal_injective : Function.Injective literal := by
  intro value other h
  rw [← String.toList_inj] at h
  cases value with
  | integer n =>
    cases other with
    | integer m =>
      have hprint : toString n.toInt = toString m.toInt := by
        simpa [literal, Literal.kindName, String.toList_inj] using h
      rw [Int64.toInt_inj.1 (Decimal.toString_int_injective hprint)]
    | string text => simp [literal, Literal.kindName] at h
  | string text =>
    cases other with
    | integer m => simp [literal, Literal.kindName] at h
    | string other =>
      have hquoted : Quoted.encode .double text = Quoted.encode .double other := by
        simpa [literal, Literal.kindName, String.toList_inj] using h
      rw [Quoted.encode_injective .double hquoted]

theorem declaration_eq_of_rows_eq {d e : Declaration} (hhead : headRow w d = headRow w e)
    (hvalue : valueRow w d = valueRow w e) : d = e := by
  obtain ⟨kind, name, value⟩ := d
  obtain ⟨kind', name', value'⟩ := e
  obtain rfl : value = value' := literal_injective (Prod.mk.inj hvalue).2
  have htext := (Prod.mk.inj hhead).2
  rw [← String.toList_inj] at htext
  cases kind <;> cases kind' <;>
    simp_all [Declaration.Kind.name, String.toList_inj]

theorem flatMap_rows_injective {ds es : List Declaration}
    (h : ds.flatMap (declarationRows w) = es.flatMap (declarationRows w)) : ds = es := by
  induction ds generalizing es with
  | nil =>
    cases es with
    | nil => rfl
    | cons e es => cases h
  | cons d ds ih =>
    cases es with
    | nil => cases h
    | cons e es =>
      simp only [List.flatMap_cons, declarationRows, List.cons_append, List.nil_append] at h
      obtain ⟨hhead, hlater⟩ := List.cons.inj h
      obtain ⟨hvalue, hmore⟩ := List.cons.inj hlater
      rw [declaration_eq_of_rows_eq hhead hvalue, ih hmore]

/-- A row that begins with no parenthesis does not say that there is nothing. -/
theorem noEntry_notMem {rows : List (Nat × String)}
    (h : ∀ row ∈ rows, ∃ c, c ≠ '(' ∧ Opens c row.2) : (2 * w, noEntry.text) ∉ rows := by
  intro hmem
  obtain ⟨c, hc, hopens⟩ := h _ hmem
  exact hopens.ne opens_noEntry hc rfl

/-- The rows of the imports end where the title of the declarations is. -/
theorem declarations_notMem {paths : List String} :
    ∀ row ∈ rowsBelow w (paths.map (importRow w)), (row != (w, "declarations")) = true := by
  intro row hrow
  have htext : row.2 ≠ "declarations" := by
    rcases mem_rowsBelow hrow with rfl | hrow
    · exact opens_noEntry.ne opens_declarations (by decide)
    · exact (opens_importRow hrow).ne opens_declarations (by decide)
  rw [bne_iff_ne]
  rintro rfl
  exact htext rfl

/-- Trees have the same rows only if they have the same structure. -/
theorem sameStructure_of_rows_eq {a b : SourceFile}
    (ha : ∀ d ∈ a.declarationNodes, '\n' ∉ d.name.toList)
    (hb : ∀ d ∈ b.declarationNodes, '\n' ∉ d.name.toList) (h : rows w a = rows w b) :
    a.sameStructure b := by
  rw [rows, rows, List.append_assoc, List.append_assoc, List.append_cancel_left_eq] at h
  obtain ⟨himports, htitled⟩ := append_inj_of_endsRun declarations_notMem (by simp)
    declarations_notMem (by simp) h
  have hpaths := rowsBelow_injective
    (noEntry_notMem fun row hrow => ⟨_, by decide, opens_importRow hrow⟩)
    (noEntry_notMem fun row hrow => ⟨_, by decide, opens_importRow hrow⟩) himports
  have hdeclarations := rowsBelow_injective
    (noEntry_notMem fun row hrow => exists_opens_declarationRow ha hrow)
    (noEntry_notMem fun row hrow => exists_opens_declarationRow hb hrow) (List.cons.inj htitled).2
  rw [SourceFile.sameStructure_iff]
  exact ⟨List.map_injective_iff.2 (importRow_injective w) hpaths,
    flatMap_rows_injective hdeclarations⟩

end Outline

/-- The outline of a tree tells its structure.  Whatever its imports, strings and integers are, as long
as no name has a line feed, its lines are the rows of the tree: the root is not indented, the two
titles are indented by one level, an import, the head of a declaration and the entry that says that
there is nothing by two, and a value by three, where a level may be of any width.  And two such trees
have the same outline exactly if they have the same structure. -/
theorem outline_tells_structure (style : Style) {a b : SourceFile}
    (ha : ∀ d ∈ a.declarationNodes, '\n' ∉ d.name.toList)
    (hb : ∀ d ∈ b.declarationNodes, '\n' ∉ d.name.toList) :
    (∃ lines, Lines.CutAtFeeds (a.outline style) lines ∧
      lines.map Outline.unindented = Outline.rows style.indentWidth a) ∧
    (a.outline style = b.outline style ↔ a.sameStructure b) := by
  have hcut := Outline.cutAtFeeds_outline ha style
  have hrows := Outline.map_unindented_lines ha style.indentWidth
  refine ⟨⟨_, hcut, hrows⟩, ?_⟩
  constructor
  · intro h
    have hother := Outline.cutAtFeeds_outline hb style
    rw [← h] at hother
    rw [← hcut.unique hother, Outline.map_unindented_lines hb] at hrows
    exact Outline.sameStructure_of_rows_eq ha hb hrows.symm
  · intro h
    obtain ⟨hpaths, hnodes⟩ := SourceFile.sameStructure_iff.1 h
    rw [SourceFile.outline, SourceFile.outline, Outline.entries, Outline.entries, hpaths, hnodes]

/-- Where nothing is indented, an import of the path `(none)` is still told from there being no import;
a name may be the title of a section. -/
theorem outline_tells_structure_not_indented :
    SourceFile.outline ⟨0, .double, true⟩
        ⟨[⟨"(none)", 0, 0, 1, 1⟩], [⟨⟨.var, "declarations", .integer (-1)⟩, 0, 0, 1, 1⟩]⟩ ≠
      SourceFile.outline ⟨0, .double, true⟩
        ⟨[], [⟨⟨.var, "declarations", .integer (-1)⟩, 0, 0, 1, 1⟩]⟩ := by
  have hname : '\n' ∉ "declarations".toList := by decide
  rw [Ne, (outline_tells_structure ⟨0, .double, true⟩ ?_ ?_).2]
  · decide
  · exact List.forall_mem_singleton.2 hname
  · exact List.forall_mem_singleton.2 hname

end DeclLang
