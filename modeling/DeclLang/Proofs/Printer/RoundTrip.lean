import DeclLang.Proofs.Grammar.Derivation
import DeclLang.Proofs.Printer.Canonical

/-!
# Canonical source text is read back

A tree is written as its canonical source text and read from there again.

The roles of a text decide the tree that the text makes, spans apart (`parse_of_roles`), and those of
canonical source text are the tokens that derive the tree (`Canonical.exists_derives`).  The
condition on the tree is also necessary, since no source text whatever makes a tree with a
declaration that cannot be read back (`isReadable_of_parse`).  `parse_canonical_iff` is the two
directions together.
-/

namespace DeclLang

/-! ## From roles to a tree -/

theorem map_kind_beforeEof {tokens : List Token} {kinds : List Token.Kind}
    (h : tokens.map Token.kind = kinds ++ [.eof]) (heof : Token.Kind.eof ∉ kinds) :
    (beforeEof tokens).map Token.kind = kinds := by
  have hkinds : ∀ kind ∈ kinds, (kind != .eof) = true := by
    intro kind hmem
    simpa using ne_of_mem_of_not_mem hmem heof
  have hmap : (beforeEof tokens).map Token.kind =
      (tokens.map Token.kind).takeWhile (· != .eof) := by
    rw [List.takeWhile_map]
    rfl
  rw [hmap, h, List.takeWhile_append_of_pos hkinds]
  simp

/-- The roles of a text decide whether it is read, and all of the tree but the spans. -/
theorem parse_of_roles {source : String} {kinds : List Token.Kind}
    (h : lexemeRoles source.toList = kinds.map .token) (heof : Token.Kind.eof ∉ kinds) :
    ∃ tokens : List Token, tokens.map Token.kind = kinds ∧
      ∀ file, parse source = .ok file ↔ Derives tokens file := by
  obtain ⟨tokens, hlexemes, hkinds⟩ := exists_tokens_of_roles (map_role_ofString h)
  refine ⟨beforeEof tokens, map_kind_beforeEof hkinds heof, ?_⟩
  intro file
  rw [parse_eq_parseTokens hlexemes, parseTokens_eq_ok_iff]

/-! ## Tokens of a tree -/

/-- Where each thing is derived from any tokens of its kinds, so is a row of them. -/
theorem exists_derivesRow {α : Type} {R : List Token → Spanned α → Prop}
    {words : α → List Token.Kind} {tokens : List Token} {nodes : List α}
    (h : ∀ node ∈ nodes, ∀ tokens : List Token, tokens.map Token.kind = words node →
      ∃ a : Spanned α, R tokens a ∧ a.node = node)
    (hkinds : tokens.map Token.kind = nodes.flatMap words) :
    ∃ as, DerivesRow R tokens as ∧ as.map Spanned.node = nodes := by
  induction nodes generalizing tokens with
  | nil =>
    obtain rfl := List.map_eq_nil_iff.1 hkinds
    exact ⟨[], .nil, rfl⟩
  | cons node nodes ih =>
    rw [List.flatMap_cons] at hkinds
    obtain ⟨first, more, rfl, hfirst, hmore⟩ := List.map_eq_append_iff.1 hkinds
    obtain ⟨hnode, hlater⟩ := List.forall_mem_cons.1 h
    obtain ⟨a, ha, rfl⟩ := hnode first hfirst
    obtain ⟨as, has, rfl⟩ := ih hlater hmore
    exact ⟨a :: as, .cons ha has, rfl⟩

namespace Canonical

theorem exists_derivesImport {path : String} {tokens : List Token}
    (h : tokens.map Token.kind = importKinds path) :
    ∃ a : Spanned String, DerivesImport tokens a ∧ a.node = path := by
  obtain ⟨⟨_, start⟩, more, rfl, rfl, hmore⟩ := List.map_eq_cons_iff.1 h
  obtain ⟨⟨_, span⟩, rfl, rfl⟩ := List.map_eq_singleton_iff.1 hmore
  exact ⟨⟨path, span⟩, .intro, rfl⟩

theorem derivesLiteral_literalKind {value : Literal}
    (h : ∀ n, value = .integer n → 0 ≤ n.toInt) : DerivesLiteral (literalKind value) value := by
  cases value with
  | string text => exact .string
  | integer n => exact .integer (Decimal.integer?_toString (h n rfl))

theorem exists_derivesDeclaration {d : Declaration} (hd : d.IsReadable) {tokens : List Token}
    (h : tokens.map Token.kind = declarationKinds d) :
    ∃ a : Spanned Declaration, DerivesDeclaration tokens a ∧ a.node = d := by
  obtain ⟨⟨_, start⟩, afterWord, rfl, rfl, hafterWord⟩ := List.map_eq_cons_iff.1 h
  obtain ⟨⟨_, nameSpan⟩, afterName, rfl, rfl, hafterName⟩ := List.map_eq_cons_iff.1 hafterWord
  obtain ⟨⟨_, markSpan⟩, afterMark, rfl, rfl, hafterMark⟩ := List.map_eq_cons_iff.1 hafterName
  obtain ⟨⟨_, span⟩, rfl, rfl⟩ := List.map_eq_singleton_iff.1 hafterMark
  exact ⟨⟨d, start.merge span⟩, .intro (derivesLiteral_literalKind hd.2), rfl⟩

theorem exists_derives {file : SourceFile} (hfile : ∀ d ∈ file.declarationNodes, d.IsReadable)
    {tokens : List Token} (h : tokens.map Token.kind = kinds file) :
    ∃ again, Derives tokens again ∧ again.sameStructure file := by
  obtain ⟨first, more, rfl, hfirst, hmore⟩ := List.map_eq_append_iff.1 h
  obtain ⟨imports, himports, hpaths⟩ :=
    exists_derivesRow (fun _ _ _ => exists_derivesImport) hfirst
  obtain ⟨declarations, hdeclarations, hnodes⟩ :=
    exists_derivesRow (fun d hd _ => exists_derivesDeclaration (hfile d hd)) hmore
  exact ⟨⟨imports, declarations⟩, ⟨first, more, rfl, himports, hdeclarations⟩,
    SourceFile.sameStructure_iff.2 ⟨hpaths, hnodes⟩⟩

theorem eof_notMem_kinds (file : SourceFile) : Token.Kind.eof ∉ kinds file := by
  have hliteral : ∀ value, Token.Kind.eof ≠ literalKind value := by
    rintro (n | text) <;> simp [literalKind]
  simp [kinds, importKinds, declarationKinds, hliteral]

end Canonical

/-! ## What no source text says -/

theorem DerivesDeclaration.isReadable {tokens : List Token} {d : Spanned Declaration}
    (h : DerivesDeclaration tokens d)
    (hspells : ∀ t ∈ tokens, ∃ text rest, Spells (.token t.kind) text rest) :
    d.node.IsReadable := by
  cases h with
  | @intro kind name literal value start nameSpan markSpan span hvalue =>
    constructor
    · obtain ⟨_, _, hname⟩ := hspells ⟨.ident name, nameSpan⟩ (by simp)
      cases hname with
      | name hname => exact hname
    · rintro n rfl
      cases hvalue with
      | @integer digits _ hn =>
        obtain ⟨_, _, hdigits⟩ := hspells ⟨.int digits, span⟩ (by simp)
        cases hdigits with
        | number hdigits =>
          rw [Decimal.integer?_of_isNumber hdigits, Option.some.injEq] at hn
          omega

/-- Whatever a source text says can be read back. -/
theorem isReadable_of_parse {source : String} {file : SourceFile} (h : parse source = .ok file) :
    ∀ d ∈ file.declarationNodes, d.IsReadable := by
  obtain ⟨-, -, imports, declarations, htokens, -, hrow⟩ := Feed.parse_eq_ok_iff.1 h
  intro node hnode
  obtain ⟨d, hd, rfl⟩ := List.mem_map.1 hnode
  obtain ⟨part, hsub, hpart⟩ := hrow.exists_infix_of_mem hd
  refine hpart.isReadable ?_
  intro t ht
  have hmem : t ∈ (Feed.ofString source).entries.map Feed.Entry.token := by
    rw [htokens]
    exact List.mem_append_right _ (hsub.subset ht)
  obtain ⟨entry, hentry, rfl⟩ := List.mem_map.1 hmem
  obtain ⟨hlexeme, hkind⟩ := Feed.token_mem_of_behind hentry
  refine Lexeme.spells_of_mem_ofString hlexeme ?_
  simpa [Lexeme.role] using hkind

/-! ## The round trip -/

/-- Canonical source text is read, and as the tree that it was written from, exactly if every
declaration of the tree can be read back.  Import paths and strings may be any text, the spans of
the tree may be anything, and every style will do. -/
theorem parse_canonical_iff (style : Style) (file : SourceFile) :
    (∃ again, parse (file.canonical style) = .ok again ∧ again.sameStructure file) ↔
      ∀ d ∈ file.declarationNodes, d.IsReadable := by
  constructor
  · rintro ⟨again, hparse, hsame⟩
    obtain ⟨-, hnodes⟩ := SourceFile.sameStructure_iff.1 hsame
    rw [← hnodes]
    exact isReadable_of_parse hparse
  · intro h
    obtain ⟨tokens, hkinds, hparse⟩ :=
      parse_of_roles (Canonical.lexemeRoles_canonical h) (Canonical.eof_notMem_kinds file)
    obtain ⟨again, hderives, hsame⟩ := Canonical.exists_derives h hkinds
    exact ⟨again, (hparse again).2 hderives, hsame⟩

end DeclLang
