import DeclLang.Proofs.Lexical.Layout

/-!
# The roles of lexemes

`lexemeRoles` forgets of a text all but what its lexemes are.  Where a text was put together from
pieces, its roles are found piece by piece (`Spells.lexemeRoles_token` and its companions), and they
decide the lexemes of the text, spans apart (`map_role_ofString`).
-/

namespace DeclLang

/-! ## The roles of lexemes -/

/-- What the lexemes of a text are, in order. -/
def lexemeRoles (cs : List Char) : List Piece.Role :=
  ((pieces cs).map Piece.role).filter (· ≠ .trivia)

@[simp]
theorem lexemeRoles_nil : lexemeRoles [] = [] := by simp [lexemeRoles]

namespace Spells

variable {text rest : List Char} {kind : Token.Kind}

theorem lexemeRoles_trivia (h : Spells .trivia text rest) :
    lexemeRoles (text ++ rest) = lexemeRoles rest := by
  rw [lexemeRoles, h.pieces_append]
  rfl

theorem lexemeRoles_token (h : Spells (.token kind) text rest) :
    lexemeRoles (text ++ rest) = .token kind :: lexemeRoles rest := by
  rw [lexemeRoles, h.pieces_append]
  rfl

/-- A blank behind a token separates it from what follows and is not seen. -/
theorem lexemeRoles_blank {c : Char} (h : Spells (.token kind) text (c :: rest))
    (hc : c ∈ [' ', '\t', '\r', '\n']) :
    lexemeRoles (text ++ c :: rest) = .token kind :: lexemeRoles rest := by
  have hblank : lexemeRoles (c :: rest) = lexemeRoles rest := (Spells.blank hc).lexemeRoles_trivia
  rw [h.lexemeRoles_token, hblank]

theorem lexemeRoles_space (h : Spells (.token kind) text (' ' :: rest)) :
    lexemeRoles (text ++ ' ' :: rest) = .token kind :: lexemeRoles rest :=
  h.lexemeRoles_blank (by simp)

theorem lexemeRoles_lineFeed (h : Spells (.token kind) text ('\n' :: rest)) :
    lexemeRoles (text ++ '\n' :: rest) = .token kind :: lexemeRoles rest :=
  h.lexemeRoles_blank (by simp)

end Spells

/-- A byte order mark that is not passed over is no token. -/
theorem spells_byteOrderMark (rest : List Char) :
    Spells (.fault (.unexpectedChar '\uFEFF')) ['\uFEFF'] rest := by
  refine .stray ?_
  rintro (h | h | h | h | ⟨q, h⟩ | ⟨h, -⟩)
  · exact absurd h (by decide)
  · exact absurd h (by decide)
  · exact absurd h (by decide)
  · exact absurd h (by decide)
  · cases q <;> exact absurd h (by decide)
  · exact absurd h (by decide)

theorem lexemeRoles_byteOrderMark (cs : List Char) :
    lexemeRoles ('\uFEFF' :: cs) = .fault (.unexpectedChar '\uFEFF') :: lexemeRoles cs := by
  rw [lexemeRoles, ← List.singleton_append, (spells_byteOrderMark cs).pieces_append]
  rfl

/-- No other piece begins with a byte order mark. -/
theorem Spells.head?_ne_byteOrderMark {role : Piece.Role} {text rest : List Char}
    (h : Spells role text rest) (hrole : role ≠ .fault (.unexpectedChar '\uFEFF')) :
    text.head? ≠ some '\uFEFF' := by
  intro hhead
  obtain ⟨cs, rfl⟩ := List.head?_eq_some_iff.1 hhead
  have hstray : Piece.next '\uFEFF' (cs ++ rest) = _ := (spells_byteOrderMark _).next_eq rfl
  rw [h.next_eq (List.cons_append ..)] at hstray
  cases hstray
  exact hrole rfl

theorem map_role_place (p : Position) (ps : List Piece) :
    (Lexeme.place p ps).map Lexeme.role =
      (ps.map Piece.role).filter (· ≠ .trivia) ++ [.token .eof] := by
  induction ps generalizing p with
  | nil => rfl
  | cons piece ps ih =>
    obtain ⟨role, text⟩ := piece
    rw [Lexeme.place, List.map_append, ih]
    cases role <;> rfl

/-! ## From roles to tokens -/

theorem exists_tokens_of_roles {lexemes : List Lexeme} {kinds : List Token.Kind}
    (h : lexemes.map Lexeme.role = kinds.map .token) :
    ∃ tokens : List Token, lexemes = tokens.map .token ∧ tokens.map Token.kind = kinds := by
  induction lexemes generalizing kinds with
  | nil =>
    have hkinds : kinds = [] := List.map_eq_nil_iff.1 h.symm
    exact ⟨[], rfl, hkinds.symm⟩
  | cons lexeme lexemes ih =>
    obtain ⟨kind, more, rfl, hkind, hmore⟩ := List.map_eq_cons_iff.1 h.symm
    obtain ⟨tokens, rfl, rfl⟩ := ih hmore.symm
    cases lexeme with
    | error e => cases hkind
    | token t =>
      cases hkind
      exact ⟨t :: tokens, rfl, rfl⟩

/-- A text in which nothing is in error does not begin with a byte order mark, so its lexemes are
those of its pieces. -/
theorem map_role_ofString {source : String} {kinds : List Token.Kind}
    (h : lexemeRoles source.toList = kinds.map .token) :
    (Lexeme.ofString source).map Lexeme.role = (kinds ++ [Token.Kind.eof]).map .token := by
  have hsplit : Lexeme.splitByteOrderMark source.toList = (.start, source.toList) := by
    unfold Lexeme.splitByteOrderMark
    split
    · next rest hmark =>
      rw [hmark, lexemeRoles_byteOrderMark] at h
      cases kinds <;> cases h
    · rfl
  rw [Lexeme.ofString, hsplit, map_role_place, List.map_append, ← h]
  rfl

/-- Behind a byte order mark, the lexemes of a text are those that it has without the mark. -/
theorem map_role_ofString_of_mark {source : String} {text : List Char} {kinds : List Token.Kind}
    (hsource : source.toList = '\uFEFF' :: text) (h : lexemeRoles text = kinds.map .token) :
    (Lexeme.ofString source).map Lexeme.role = (kinds ++ [Token.Kind.eof]).map .token := by
  rw [Lexeme.ofString, hsource, Lexeme.splitByteOrderMark, map_role_place, List.map_append, ← h]
  rfl

end DeclLang
