import DeclLang.Printer.Canonical
import DeclLang.Proofs.Decimal
import DeclLang.Proofs.Lexical.Roles

/-!
# The lexemes of canonical source text

Each line of canonical source text has the roles of its words, whatever lies behind the line.
`Canonical.lexemeRoles_canonical` puts the lines together: the lexemes of the text are the tokens of
the tree, with nothing in error between them.

Every string can be written, since `body_encodeBody` holds for any value: a character is written as
its escape if it has one, and as it is otherwise, and `exists_escape_to_iff` tells which have one.
A name must be a word that is not reserved, and an integer must not be negative:
`Declaration.IsReadable` asks for both.
-/

namespace DeclLang

/-! ## Strings -/

section Escapes

variable {q : QuoteStyle} {c d : Char}

/-- The escapes as a table. -/
theorem escape_iff : Escape q c d ↔ (c, d) ∈ [('n', '\n'), ('t', '\t'), ('r', '\r'), ('0', '\x00'),
    ('\\', '\\'), (q.delimiter, q.delimiter)] := by
  constructor
  · intro h
    cases h <;> simp
  · intro h
    simp only [List.mem_cons, List.not_mem_nil, or_false, Prod.mk.injEq] at h
    rcases h with ⟨rfl, rfl⟩ | ⟨rfl, rfl⟩ | ⟨rfl, rfl⟩ | ⟨rfl, rfl⟩ | ⟨rfl, rfl⟩ | ⟨rfl, rfl⟩
    exacts [.lineFeed, .tab, .carriageReturn, .nul, .backslash, .delimiter]

/-- The characters that are written with a backslash. -/
theorem exists_escape_to_iff :
    (∃ c, Escape q c d) ↔ d ∈ ['\n', '\t', '\r', '\x00', '\\', q.delimiter] := by
  simp [escape_iff, exists_or]

/-- A character that has an escape is written as that escape. -/
theorem Escape.escape_eq (h : Escape q c d) : Quoted.escape q d = ['\\', c] := by
  cases h with
  | delimiter => cases q <;> rfl
  | _ => rfl

/-- A character that has no escape is written as it is. -/
theorem Quoted.escape_eq_self (h : ∀ c, ¬ Escape q c d) : escape q d = [d] := by
  have hd : d ∉ ['\n', '\t', '\r', '\x00', '\\', q.delimiter] := by
    rw [← exists_escape_to_iff]
    exact not_exists.2 h
  simp only [List.mem_cons, List.not_mem_nil, or_false, not_or] at hd
  obtain ⟨hfeed, htab, hreturn, hnul, hslash, hquote⟩ := hd
  rw [escape, if_neg hslash, if_neg hfeed, if_neg htab, if_neg hreturn, if_neg hnul, if_neg hquote]

end Escapes

theorem body_encodeBody (q : QuoteStyle) (value : List Char) :
    Body q (Quoted.encodeBody q value) value := by
  induction value with
  | nil => exact .nil
  | cons d ds ih =>
    rw [Quoted.encodeBody_cons]
    by_cases hescape : ∃ c, Escape q c d
    · obtain ⟨c, hc⟩ := hescape
      rw [hc.escape_eq]
      exact .escape hc ih
    · rw [Quoted.escape_eq_self (not_exists.1 hescape)]
      simp only [exists_escape_to_iff, List.mem_cons, List.not_mem_nil, or_false, not_or] at hescape
      obtain ⟨hfeed, -, -, -, hslash, hquote⟩ := hescape
      exact .plain hslash hquote hfeed ih

theorem spells_encode (q : QuoteStyle) (value : String) (rest : List Char) :
    Spells (.token (.string value)) (Quoted.encode q value).toList rest := by
  rw [Quoted.encode, String.toList_ofList, List.cons_append]
  exact .string (body_encodeBody q value.toList)

/-! ## Lines -/

/-- Whether a declaration can be read back: its name is a word that is not reserved, and its integer,
if it has one, is not negative. -/
def Declaration.IsReadable (d : Declaration) : Prop :=
  IsName d.name ∧ ∀ n, d.value = .integer n → 0 ≤ n.toInt

namespace Canonical

/-- The token that a literal is written as. -/
def literalKind : Literal → Token.Kind
  | .integer n => .int (toString n.toInt)
  | .string text => .string text

/-- The tokens of the line of an import. -/
def importKinds (path : String) : List Token.Kind := [.keyword .import, .string path]

/-- The tokens of the line of a declaration. -/
def declarationKinds (d : Declaration) : List Token.Kind :=
  [.keyword d.kind.keyword, .ident d.name, .punctuation .eq, literalKind d.value]

/-- The tokens of canonical source text. -/
def kinds (file : SourceFile) : List Token.Kind :=
  file.importPaths.flatMap importKinds ++ file.declarationNodes.flatMap declarationKinds

variable {q : QuoteStyle} {rest : List Char}

theorem endsRun_space (cs : List Char) : EndsRun isNamePart (' ' :: cs) :=
  endsRun_cons.2 (by decide)

theorem endsRun_lineFeed (cs : List Char) : EndsRun Char.isDigit ('\n' :: cs) :=
  endsRun_cons.2 (by decide)

theorem spells_literal {value : Literal} (h : ∀ n, value = .integer n → 0 ≤ n.toInt)
    (hrest : EndsRun Char.isDigit rest) :
    Spells (.token (literalKind value)) (literal q value).toList rest := by
  cases value with
  | string text => exact spells_encode q text rest
  | integer n =>
    have hdigits := Decimal.toList_toString (h n rfl)
    refine .number ?_ hrest
    rw [hdigits]
    exact Decimal.isNumber_toDigits _

theorem toList_importLine (path : String) :
    (importLine q path).toList ++ '\n' :: rest = Keyword.import.spelling.toList ++
      ' ' :: ((Quoted.encode q path).toList ++ '\n' :: rest) := by
  simp [importLine]

theorem toList_declarationLine (d : Declaration) :
    (declarationLine q d).toList ++ '\n' :: rest = d.kind.keyword.spelling.toList ++
      ' ' :: (d.name.toList ++ ' ' :: (Punctuation.eq.spelling.toList ++
        ' ' :: ((literal q d.value).toList ++ '\n' :: rest))) := by
  simp [declarationLine]

theorem lexemeRoles_importLine (path : String) :
    lexemeRoles ((importLine q path).toList ++ '\n' :: rest) =
      (importKinds path).map .token ++ lexemeRoles rest := by
  rw [toList_importLine, (Spells.keyword (endsRun_space _)).lexemeRoles_space,
    (spells_encode q path _).lexemeRoles_lineFeed]
  rfl

theorem lexemeRoles_declarationLine {d : Declaration} (h : d.IsReadable) :
    lexemeRoles ((declarationLine q d).toList ++ '\n' :: rest) =
      (declarationKinds d).map .token ++ lexemeRoles rest := by
  have hvalue := @spells_literal q _ _ h.2 (endsRun_lineFeed rest)
  rw [toList_declarationLine, (Spells.keyword (endsRun_space _)).lexemeRoles_space,
    (Spells.name h.1 (endsRun_space _)).lexemeRoles_space, Spells.mark.lexemeRoles_space,
    hvalue.lexemeRoles_lineFeed]
  rfl

/-! ## Whole trees -/

/-- Lines that have the roles of their words wherever they stand keep them when they are joined. -/
theorem lexemeRoles_lines {α : Type} {line : α → String} {words : α → List Token.Kind} {as : List α}
    (h : ∀ a ∈ as, ∀ rest, lexemeRoles ((line a).toList ++ '\n' :: rest) =
      (words a).map .token ++ lexemeRoles rest) :
    lexemeRoles ((as.map line).flatMap (fun l => l.toList ++ ['\n']) ++ rest) =
      (as.flatMap words).map .token ++ lexemeRoles rest := by
  induction as with
  | nil => rfl
  | cons a as ih =>
    obtain ⟨hfirst, hlater⟩ := List.forall_mem_cons.1 h
    have happend : ((a :: as).map line).flatMap (fun l => l.toList ++ ['\n']) ++ rest =
        (line a).toList ++ '\n' :: ((as.map line).flatMap (fun l => l.toList ++ ['\n']) ++ rest) := by
      simp
    rw [happend, hfirst, ih hlater, List.flatMap_cons, List.map_append, List.append_assoc]

theorem lexemeRoles_separator (style : Style) (file : SourceFile) :
    lexemeRoles ((separator style file).flatMap (fun l => l.toList ++ ['\n']) ++ rest) =
      lexemeRoles rest := by
  unfold separator
  split
  · exact (Spells.blank (by simp)).lexemeRoles_trivia
  · rfl

/-- The lexemes of canonical source text are the tokens of the tree. -/
theorem lexemeRoles_canonical {style : Style} {file : SourceFile}
    (h : ∀ d ∈ file.declarationNodes, d.IsReadable) :
    lexemeRoles (file.canonical style).toList = (kinds file).map .token := by
  have himports := fun rest => @lexemeRoles_lines rest _ (importLine style.quoteStyle) importKinds
    file.importPaths fun path _ _ => lexemeRoles_importLine path
  have hdeclarations := @lexemeRoles_lines [] _ (declarationLine style.quoteStyle) declarationKinds
    file.declarationNodes fun d hd _ => lexemeRoles_declarationLine (h d hd)
  rw [List.append_nil, lexemeRoles_nil, List.append_nil] at hdeclarations
  rw [SourceFile.canonical, Lines.join, String.toList_ofList, lines, List.flatMap_append,
    List.flatMap_append, List.append_assoc, himports, lexemeRoles_separator, hdeclarations, kinds,
    List.map_append]

end Canonical

end DeclLang
