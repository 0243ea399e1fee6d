import DeclLang.Printer.Json
import DeclLang.Proofs.Decimal

/-!
# JSON text is read back

`JsonValue.read?` reads a JSON value from a text and tells what is left behind it; spaces and line
feeds between the parts of a value do not matter.  The elements of an array and the members of an
object are read alike (`JsonValue.readBlock?`), and what they have in common is said once: a reader
that reads each part reads them all (`JsonValue.readBlock?_block`).

So a value is read from its rendering (`JsonValue.read?_render`), whatever follows as long as it does
not go on with digits.  `SourceFile.ofJsonValue?` finds the tree in a value, spans included, and
`json_keeps_tree` puts the two together.
-/

namespace DeclLang

namespace JsonValue

/-! ## Reading -/

/-- Whether a character may stand between the parts of a value. -/
def isBlank (c : Char) : Bool := c == ' ' || c == '\n'

/-- Whether a character may stand in a number. -/
def isNumberPart (c : Char) : Bool := c == '-' || c.isDigit

/-- The text behind the blanks that it begins with. -/
def skip (cs : List Char) : List Char := cs.dropWhile isBlank

/-- The value of a hexadecimal digit. -/
def hexValue? (c : Char) : Option Nat := (List.range 16).find? fun n => Nat.digitChar n == c

/-- The character that a backslash and `c` stand for together. -/
def unescape? : Char → Option Char
  | '"' => some '"'
  | '\\' => some '\\'
  | 'b' => some '\x08'
  | 'f' => some '\x0c'
  | 'n' => some '\n'
  | 'r' => some '\r'
  | 't' => some '\t'
  | _ => none

/-- Reading a string behind its first quote, up to the quote that ends it. -/
def readString? : List Char → Option (List Char × List Char)
  | [] => none
  | '"' :: cs => some ([], cs)
  | '\\' :: 'u' :: '0' :: '0' :: high :: low :: cs => do
    let high ← hexValue? high
    let low ← hexValue? low
    let (text, rest) ← readString? cs
    return (.ofNat (16 * high + low) :: text, rest)
  | '\\' :: c :: cs => do
    let d ← unescape? c
    let (text, rest) ← readString? cs
    return (d :: text, rest)
  | c :: cs => do
    let (text, rest) ← readString? cs
    return (c :: text, rest)

section Block

variable {α : Type} (next? : List Char → Option (α × List Char)) (close : Char)

/-- Reading the parts behind the first, each behind a comma, up to the character that closes them. -/
def readMore? : Nat → List Char → Option (List α × List Char)
  | 0, _ => none
  | fuel + 1, cs =>
    match skip cs with
    | [] => none
    | c :: cs =>
      if c = close then some ([], cs)
      else if c = ',' then do
        let (next, rest) ← next? (skip cs)
        let (more, rest) ← readMore? fuel rest
        return (next :: more, rest)
      else none

/-- Reading parts with commas between them, up to the character that closes them. -/
def readBlock? (fuel : Nat) (cs : List Char) : Option (List α × List Char) :=
  if (skip cs).head? = some close then some ([], (skip cs).tail)
  else do
    let (first, rest) ← next? (skip cs)
    let (more, rest) ← readMore? next? close fuel rest
    return (first :: more, rest)

end Block

/-- Reading a member of an object. -/
def readMember? (value? : List Char → Option (JsonValue × List Char)) (cs : List Char) :
    Option ((String × JsonValue) × List Char) :=
  match cs with
  | '"' :: cs => do
    let (name, rest) ← readString? cs
    match rest with
    | ':' :: cs => do
      let (value, rest) ← value? (skip cs)
      return ((.ofList name, value), rest)
    | _ => none
  | _ => none

/-- Reading a value.  The first argument bounds how deep values lie in each other, and how many parts
a value has. -/
def read? : Nat → List Char → Option (JsonValue × List Char)
  | 0, _ => none
  | fuel + 1, cs =>
    match cs with
    | '"' :: cs => (readString? cs).map fun (text, rest) => (.string (.ofList text), rest)
    | '[' :: cs =>
      (readBlock? (read? fuel) ']' fuel cs).map fun (elements, rest) => (.array elements, rest)
    | '\x7b' :: cs =>
      (readBlock? (readMember? (read? fuel)) '\x7d' fuel cs).map fun (members, rest) =>
        (.object members, rest)
    | cs =>
      (Decimal.integer? (cs.takeWhile isNumberPart)).map fun n =>
        (.number n, cs.dropWhile isNumberPart)

/-- The value that a text is, blanks around it aside. -/
def ofText? (cs : List Char) : Option JsonValue := do
  let (value, rest) ← read? cs.length (skip cs)
  if skip rest = [] then some value else none

/-! ## Strings -/

theorem hexValue?_digitChar : ∀ n < 16, hexValue? (Nat.digitChar n) = some n := by decide

/-- A backslash and a character other than `u` are read as what they stand for. -/
theorem readString?_backslash {c d : Char} (h : unescape? c = some d) (rest : List Char) :
    readString? ('\\' :: c :: rest) = (readString? rest).map fun (text, rest) => (d :: text, rest) := by
  have hu : c ≠ 'u' := by
    rintro rfl
    cases h
  rw [readString?, h]
  · cases readString? rest <;> rfl
  · rintro _ _ _ rfl
    exact absurd rfl hu

/-- A character is written with a character behind a backslash, by its number, or as it is. -/
theorem escape_cases (c : Char) :
    (∃ w, escape c = ['\\', w] ∧ unescape? w = some c) ∨
      (c.toNat < 0x20 ∧ escape c =
        ['\\', 'u', '0', '0', Nat.digitChar (c.toNat / 16), Nat.digitChar (c.toNat % 16)]) ∨
      (c ≠ '"' ∧ c ≠ '\\' ∧ escape c = [c]) := by
  unfold escape
  split_ifs with hquote hslash hback hfeed hline hreturn htab hcontrol
  case pos => exact .inl ⟨_, rfl, by rw [hquote]; rfl⟩
  case pos => exact .inl ⟨_, rfl, by rw [hslash]; rfl⟩
  case pos => exact .inl ⟨_, rfl, by rw [hback]; rfl⟩
  case pos => exact .inl ⟨_, rfl, by rw [hfeed]; rfl⟩
  case pos => exact .inl ⟨_, rfl, by rw [hline]; rfl⟩
  case pos => exact .inl ⟨_, rfl, by rw [hreturn]; rfl⟩
  case pos => exact .inl ⟨_, rfl, by rw [htab]; rfl⟩
  case pos => exact .inr (.inl ⟨hcontrol, rfl⟩)
  case neg => exact .inr (.inr ⟨hquote, hslash, rfl⟩)

/-- A character is read from its written form. -/
theorem readString?_escape (c : Char) (rest : List Char) :
    readString? (escape c ++ rest) = (readString? rest).map fun (text, rest) => (c :: text, rest) := by
  rcases escape_cases c with ⟨w, hescape, hw⟩ | ⟨hcontrol, hescape⟩ | ⟨hquote, hslash, hescape⟩
  · rw [hescape]
    exact readString?_backslash hw rest
  · have hhigh := hexValue?_digitChar (c.toNat / 16) (by omega)
    have hlow := hexValue?_digitChar (c.toNat % 16) (Nat.mod_lt _ (by decide))
    have hvalue : Char.ofNat (16 * (c.toNat / 16) + c.toNat % 16) = c := by
      rw [Nat.div_add_mod, Char.ofNat_toNat]
    rw [hescape]
    simp only [List.cons_append, List.nil_append]
    rw [readString?, hhigh, hlow]
    cases readString? rest with
    | none => rfl
    | some split =>
      show some _ = some _
      rw [hvalue]
  · rw [hescape, List.singleton_append, readString?]
    · cases readString? rest <;> rfl
    · exact hquote
    · exact fun _ _ _ h => absurd h hslash
    · exact fun _ _ h => absurd h hslash

theorem readString?_quote (text : String) (rest : List Char) :
    readString? (text.toList.flatMap escape ++ '"' :: rest) = some (text.toList, rest) := by
  induction text.toList with
  | nil => rfl
  | cons c cs ih =>
    rw [List.flatMap_cons, List.append_assoc, readString?_escape, ih]
    rfl

/-! ## Blocks -/

section Block

variable {α : Type} {next? : List Char → Option (α × List Char)} {write : α → List Char}
  {close : Char} {as : List α}

/-- A part is read from its text, whatever is behind it but for digits, and the text begins with a
character that is neither blank nor closes a block. -/
structure IsRead (next? : List Char → Option (α × List Char)) (close : Char) (text : List Char)
    (a : α) : Prop where
  opens : ∃ c cs, text = c :: cs ∧ isBlank c = false ∧ c ≠ close
  reads : ∀ rest, EndsRun isNumberPart rest → next? (text ++ rest) = some (a, rest)

/-- What is behind a part of a block: the other parts, each behind a comma and on a line of its own,
and the closing character on the last line. -/
def behind (depth : Nat) (write : α → List Char) (close : Char) : List α → List Char
  | [] => newline depth ++ [close]
  | next :: more => ',' :: newline (depth + 1) ++ write next ++ behind depth write close more

/-- A block behind its opening character. -/
def block (depth : Nat) (write : α → List Char) (close : Char) : List α → List Char
  | [] => [close]
  | first :: more => newline (depth + 1) ++ write first ++ behind depth write close more

theorem skip_cons {c : Char} (h : isBlank c = false) (cs : List Char) : skip (c :: cs) = c :: cs := by
  rw [skip, List.dropWhile_cons, h]
  rfl

theorem skip_newline (depth : Nat) (cs : List Char) : skip (newline depth ++ cs) = skip cs := by
  have hblank : ∀ c ∈ newline depth, isBlank c = true := by
    simp [newline, isBlank]
  rw [skip, List.dropWhile_append_of_pos hblank, skip]

theorem IsRead.skip_append {text : List Char} {a : α} (h : IsRead next? close text a)
    (rest : List Char) : skip (text ++ rest) = text ++ rest := by
  obtain ⟨c, cs, rfl, hblank, -⟩ := h.opens
  exact skip_cons hblank (cs ++ rest)

/-- No number goes on behind a part of a block. -/
theorem endsRun_behind (depth : Nat) (as : List α) (rest : List Char) :
    EndsRun isNumberPart (behind depth write close as ++ rest) := by
  cases as <;> exact endsRun_cons.2 (by decide)

theorem length_lt_behind (depth : Nat) (as : List α) :
    as.length < (behind depth write close as).length := by
  induction as with
  | nil => simp [behind]
  | cons a as ih =>
    simp only [behind, List.length_cons, List.length_append]
    omega

theorem length_write_le_behind (depth : Nat) :
    ∀ a ∈ as, (write a).length ≤ (behind depth write close as).length := by
  induction as with
  | nil => nofun
  | cons a as ih =>
    simp only [behind, List.length_cons, List.length_append, List.forall_mem_cons]
    refine ⟨by omega, fun b hb => ?_⟩
    have hlater := ih b hb
    omega

theorem length_write_le_block (depth : Nat) :
    ∀ a ∈ as, (write a).length ≤ (block depth write close as).length := by
  cases as with
  | nil => nofun
  | cons first more =>
    simp only [block, List.length_append, List.forall_mem_cons]
    refine ⟨by omega, fun b hb => ?_⟩
    have hlater := @length_write_le_behind _ write close more depth b hb
    omega

/-- If each part is read, so are all that are behind the first. -/
theorem readMore?_behind (hclose : isBlank close = false) (hcomma : close ≠ ',') {depth fuel : Nat}
    (hfuel : as.length < fuel) (h : ∀ a ∈ as, IsRead next? close (write a) a) (rest : List Char) :
    readMore? next? close fuel (behind depth write close as ++ rest) = some (as, rest) := by
  induction as generalizing fuel with
  | nil =>
    obtain ⟨fuel, rfl⟩ := Nat.exists_eq_succ_of_ne_zero (Nat.ne_zero_of_lt hfuel)
    rw [readMore?, behind, List.append_assoc, skip_newline, List.singleton_append,
      skip_cons hclose]
    simp
  | cons a as ih =>
    obtain ⟨fuel, rfl⟩ := Nat.exists_eq_succ_of_ne_zero (Nat.ne_zero_of_lt hfuel)
    obtain ⟨hfirst, hlater⟩ := List.forall_mem_cons.1 h
    have hmore := ih (Nat.lt_of_succ_lt_succ hfuel) hlater
    have hread := hfirst.reads (behind depth write close as ++ rest) (endsRun_behind depth as rest)
    rw [readMore?, behind, List.append_assoc, List.append_assoc, List.cons_append,
      skip_cons (by decide)]
    simp only [if_neg hcomma.symm, if_pos, skip_newline, hfirst.skip_append, hread]
    show (readMore? next? close fuel _).bind _ = _
    rw [hmore]
    rfl

/-- If each part is read, so is the block of them. -/
theorem readBlock?_block (hclose : isBlank close = false) (hcomma : close ≠ ',') {depth fuel : Nat}
    (hfuel : (block depth write close as).length ≤ fuel)
    (h : ∀ a ∈ as, IsRead next? close (write a) a) (rest : List Char) :
    readBlock? next? close fuel (block depth write close as ++ rest) = some (as, rest) := by
  cases as with
  | nil =>
    rw [readBlock?, block, List.singleton_append, skip_cons hclose]
    simp
  | cons first more =>
    obtain ⟨hfirst, hmore⟩ := List.forall_mem_cons.1 h
    obtain ⟨c, cs, htext, -, hne⟩ := hfirst.opens
    have hread := hfirst.reads (behind depth write close more ++ rest)
      (endsRun_behind depth more rest)
    have hlength : more.length < fuel := by
      have hlt := @length_lt_behind _ write close depth more
      simp only [block, List.length_append] at hfuel
      omega
    have hhead : (write first ++ (behind depth write close more ++ rest)).head? ≠ some close := by
      simpa [htext] using hne
    rw [readBlock?, block, List.append_assoc, List.append_assoc, skip_newline, hfirst.skip_append,
      if_neg hhead, hread]
    show (readMore? next? close fuel _).bind _ = _
    rw [readMore?_behind hclose hcomma hlength hmore]
    rfl

end Block

/-! ## Values -/

/-- The written form of a member of an object. -/
def renderMember (depth : Nat) (member : String × JsonValue) : List Char :=
  quote member.1 ++ ([':', ' '] ++ render depth member.2)

theorem render_array (depth : Nat) (elements : List JsonValue) :
    render depth (.array elements) = '[' :: block depth (render (depth + 1)) ']' elements := by
  have hbehind : ∀ more, renderElements (depth + 1) more ++ (newline depth ++ [']']) =
      behind depth (render (depth + 1)) ']' more := by
    intro more
    induction more with
    | nil => rfl
    | cons next more ih => rw [renderElements, behind, ← ih, List.append_assoc]
  cases elements with
  | nil => rfl
  | cons first more =>
    rw [render, block, ← hbehind]
    simp only [List.append_assoc, List.cons_append]

theorem render_object (depth : Nat) (members : List (String × JsonValue)) :
    render depth (.object members) =
      '\x7b' :: block depth (renderMember (depth + 1)) '\x7d' members := by
  have hbehind : ∀ more, renderMembers (depth + 1) more ++ (newline depth ++ ['\x7d']) =
      behind depth (renderMember (depth + 1)) '\x7d' more := by
    intro more
    induction more with
    | nil => rfl
    | cons next more ih =>
      rw [renderMembers, behind, renderMember, ← ih]
      simp only [List.append_assoc, List.cons_append]
  cases members with
  | nil => rfl
  | cons first more =>
    rw [render, block, renderMember, ← hbehind]
    simp only [List.append_assoc, List.cons_append]

theorem isNumberPart_toString {n : Int} {c : Char} (h : c ∈ (toString n).toList) :
    isNumberPart c = true := by
  simpa [isNumberPart] using Decimal.mem_toString h

theorem exists_toString_eq_cons (n : Int) :
    ∃ c cs, (toString n).toList = c :: cs ∧ isNumberPart c = true := by
  have hne : (toString n).toList ≠ [] := by
    intro hnil
    have hwrites := Decimal.writes_toString n
    rw [hnil] at hwrites
    cases hwrites with
    | plain h => exact h.ne_nil rfl
  obtain ⟨c, cs, hcons⟩ := List.exists_cons_of_ne_nil hne
  refine ⟨c, cs, hcons, isNumberPart_toString (n := n) ?_⟩
  rw [hcons]
  exact List.mem_cons_self

/-- What a value begins with. -/
theorem exists_render_eq_cons (depth : Nat) (v : JsonValue) :
    ∃ c cs, render depth v = c :: cs ∧ isBlank c = false ∧ c ≠ ']' := by
  cases v with
  | number n =>
    obtain ⟨c, cs, hcons, hpart⟩ := exists_toString_eq_cons n
    refine ⟨c, cs, hcons, ?_, ?_⟩
    · by_contra hblank
      rw [Bool.not_eq_false, isBlank, Bool.or_eq_true, beq_iff_eq, beq_iff_eq] at hblank
      rcases hblank with rfl | rfl <;> exact absurd hpart (by decide)
    · rintro rfl
      exact absurd hpart (by decide)
  | string text => exact ⟨_, _, rfl, by decide, by decide⟩
  | array elements => exact ⟨_, _, render_array depth elements, by decide, by decide⟩
  | object members => exact ⟨_, _, render_object depth members, by decide, by decide⟩

theorem read?_number (fuel : Nat) (n : Int) {rest : List Char} (h : EndsRun isNumberPart rest) :
    read? (fuel + 1) ((toString n).toList ++ rest) = some (.number n, rest) := by
  have hparts : ∀ c ∈ (toString n).toList, isNumberPart c = true := fun c hc =>
    isNumberPart_toString hc
  have hread : Decimal.integer? (toString n).toList = some n :=
    Decimal.integer?_eq_some_iff.2 (Decimal.writes_toString n)
  have hopens : ∀ d cs, isNumberPart d = false → (toString n).toList ++ rest ≠ d :: cs := by
    intro d cs hd heq
    obtain ⟨c, _, hcons, hc⟩ := exists_toString_eq_cons n
    rw [hcons, List.cons_append] at heq
    obtain ⟨rfl, -⟩ := List.cons.inj heq
    rw [hc] at hd
    cases hd
  rw [read?, takeWhile_append_of_endsRun hparts h, dropWhile_append_of_endsRun hparts h, hread]
  · rfl
  · exact fun cs => hopens '"' cs (by decide)
  · exact fun cs => hopens '[' cs (by decide)
  · exact fun cs => hopens '\x7b' cs (by decide)

theorem isRead_member {fuel depth : Nat} {member : String × JsonValue}
    (h : IsRead (read? fuel) ']' (render depth member.2) member.2) :
    IsRead (readMember? (read? fuel)) '\x7d' (renderMember depth member) member := by
  obtain ⟨name, value⟩ := member
  refine ⟨⟨_, _, rfl, by decide, by decide⟩, ?_⟩
  intro rest hrest
  have hskip : skip (' ' :: (render depth value ++ rest)) = render depth value ++ rest :=
    h.skip_append rest
  have hname := readString?_quote name (':' :: ' ' :: (render depth value ++ rest))
  have htext : renderMember depth (name, value) ++ rest = '"' :: (name.toList.flatMap escape ++
      '"' :: ':' :: ' ' :: (render depth value ++ rest)) := by
    simp [renderMember, quote]
  rw [htext, readMember?, hname]
  simp only [Option.bind_eq_bind, Option.bind_some, hskip, h.reads rest hrest,
    String.ofList_toList]
  rfl

/-- A value is read from its written form, if no digits are behind it. -/
theorem read?_render {fuel depth : Nat} {v : JsonValue} (hfuel : (render depth v).length ≤ fuel)
    {rest : List Char} (hrest : EndsRun isNumberPart rest) :
    read? fuel (render depth v ++ rest) = some (v, rest) := by
  induction fuel generalizing depth v rest with
  | zero =>
    obtain ⟨c, cs, hcons, -⟩ := exists_render_eq_cons depth v
    rw [hcons] at hfuel
    exact absurd hfuel (Nat.not_succ_le_zero _)
  | succ fuel ih =>
    have hparts : ∀ {depth : Nat} {v : JsonValue}, (render depth v).length ≤ fuel →
        IsRead (read? fuel) ']' (render depth v) v := fun {depth v} hlength =>
      ⟨exists_render_eq_cons depth v, fun rest => ih hlength⟩
    cases v with
    | number n => exact read?_number fuel n hrest
    | string text =>
      have hquote : render depth (.string text) ++ rest =
          '"' :: (text.toList.flatMap escape ++ '"' :: rest) := by
        simp [render, quote]
      rw [hquote, read?, readString?_quote]
      simp only [Option.map_some, String.ofList_toList]
    | array elements =>
      rw [render_array] at hfuel ⊢
      rw [List.length_cons, Nat.add_le_add_iff_right] at hfuel
      have hblock := readBlock?_block (by decide) (by decide) hfuel
        (fun v hv => hparts (Nat.le_trans (length_write_le_block depth v hv) hfuel)) rest
      rw [List.cons_append, read?, hblock]
      rfl
    | object members =>
      rw [render_object] at hfuel ⊢
      rw [List.length_cons, Nat.add_le_add_iff_right] at hfuel
      have hvalue : ∀ member ∈ members, (render (depth + 1) member.2).length ≤ fuel := by
        intro member hmember
        have hlength := Nat.le_trans (length_write_le_block depth member hmember) hfuel
        simp only [renderMember, List.length_append] at hlength
        omega
      have hblock := readBlock?_block (by decide) (by decide) hfuel
        (fun member hmember => isRead_member (hparts (hvalue member hmember))) rest
      rw [List.cons_append, read?, hblock]
      rfl

/-- A value is read from the text that it is written as. -/
theorem ofText?_render (v : JsonValue) : ofText? (render 0 v) = some v := by
  obtain ⟨c, cs, hcons, hblank, -⟩ := exists_render_eq_cons 0 v
  have hskip : skip (render 0 v) = render 0 v := by
    rw [hcons, skip_cons hblank]
  have hend : EndsRun isNumberPart [] := nofun
  have hread := read?_render (Nat.le_refl (render 0 v).length) hend
  rw [List.append_nil] at hread
  rw [ofText?, hskip, hread]
  rfl

end JsonValue

/-! ## The parts of a tree -/

/-- The span that a value is. -/
def Span.ofJsonValue? : JsonValue → Option Span
  | .object [("start", .number start), ("end", .number stop), ("line", .number line),
      ("column", .number column)] =>
    if 0 ≤ start ∧ 0 ≤ stop ∧ 0 ≤ line ∧ 0 ≤ column then
      some ⟨start.toNat, stop.toNat, line.toNat, column.toNat⟩
    else none
  | _ => none

/-- The literal that a value is. -/
def Literal.ofJsonValue? : JsonValue → Option Literal
  | .object [("Integer", .number n)] =>
    if Int64.minValue.toInt ≤ n ∧ n ≤ Int64.maxValue.toInt then some (.integer (.ofInt n)) else none
  | .object [("String", .string text)] => some (.string text)
  | _ => none

/-- The kind of declaration that has the name. -/
def Declaration.Kind.ofName? : String → Option Declaration.Kind
  | "Function" => some .func
  | "Variable" => some .var
  | _ => none

/-- The declaration that a value is. -/
def Declaration.ofJsonValue? : JsonValue → Option Declaration
  | .object [("kind", .string kind), ("name", .string name), ("value", value)] => do
    let kind ← Kind.ofName? kind
    let value ← Literal.ofJsonValue? value
    return ⟨kind, name, value⟩
  | _ => none

/-- The string that a value is. -/
def JsonValue.string? : JsonValue → Option String
  | string text => some text
  | _ => none

theorem JsonValue.string?_string (text : String) : string? (.string text) = some text := rfl

/-- The part of a tree that a value is, with its span. -/
def Spanned.ofJsonValue? {α : Type} (node? : JsonValue → Option α) : JsonValue → Option (Spanned α)
  | .object [("node", node), ("span", span)] => do
    let node ← node? node
    let span ← Span.ofJsonValue? span
    return ⟨node, span⟩
  | _ => none

/-- The tree that a value is. -/
def SourceFile.ofJsonValue? : JsonValue → Option SourceFile
  | .object [("imports", .array imports), ("declarations", .array declarations)] => do
    let imports ← imports.mapM (Spanned.ofJsonValue? JsonValue.string?)
    let declarations ← declarations.mapM (Spanned.ofJsonValue? Declaration.ofJsonValue?)
    return ⟨imports, declarations⟩
  | _ => none

/-- The tree that a JSON text is. -/
def SourceFile.ofJson? (text : String) : Option SourceFile := do
  let value ← JsonValue.ofText? text.toList
  ofJsonValue? value

theorem Span.ofJsonValue?_toJsonValue (s : Span) : ofJsonValue? s.toJsonValue = some s := by
  simp [ofJsonValue?, toJsonValue]

theorem Literal.ofJsonValue?_toJsonValue (value : Literal) :
    ofJsonValue? value.toJsonValue = some value := by
  cases value with
  | integer n =>
    have hrange : Int64.minValue.toInt ≤ n.toInt ∧ n.toInt ≤ Int64.maxValue.toInt :=
      ⟨n.le_toInt, Int.le_of_lt_add_one n.toInt_lt⟩
    rw [toJsonValue, kindName, ofJsonValue?, if_pos hrange, Int64.ofInt_toInt]
  | string text => rfl

theorem Declaration.ofJsonValue?_toJsonValue (d : Declaration) :
    ofJsonValue? d.toJsonValue = some d := by
  have hkind : Kind.ofName? d.kind.name = some d.kind := by
    cases d.kind <;> rfl
  simp [ofJsonValue?, toJsonValue, hkind, Literal.ofJsonValue?_toJsonValue]

/-- A part is found with its span, if it is found without. -/
theorem Spanned.ofJsonValue?_toJsonValue {α : Type} {node : α → JsonValue}
    {node? : JsonValue → Option α} (h : ∀ a, node? (node a) = some a) (part : Spanned α) :
    ofJsonValue? node? (part.toJsonValue node) = some part := by
  simp [ofJsonValue?, toJsonValue, h, Span.ofJsonValue?_toJsonValue]

theorem Spanned.mapM_ofJsonValue? {α : Type} {node : α → JsonValue}
    {node? : JsonValue → Option α} (h : ∀ a, node? (node a) = some a) (parts : List (Spanned α)) :
    (parts.map (toJsonValue node)).mapM (ofJsonValue? node?) = some parts := by
  induction parts with
  | nil => rfl
  | cons part parts ih => simp [ofJsonValue?_toJsonValue h, ih]

theorem SourceFile.ofJsonValue?_toJsonValue (file : SourceFile) :
    ofJsonValue? file.toJsonValue = some file := by
  have himports := Spanned.mapM_ofJsonValue? JsonValue.string?_string file.imports
  have hdeclarations :=
    Spanned.mapM_ofJsonValue? Declaration.ofJsonValue?_toJsonValue file.declarations
  simp [ofJsonValue?, toJsonValue, himports, hdeclarations]

/-- The JSON text of a tree keeps all of it.  Whatever its paths, names and strings are made of, and
whatever its integers and its spans are, the tree is read back from the text; so different trees have
different texts. -/
theorem json_keeps_tree :
    (∀ file : SourceFile, SourceFile.ofJson? file.toJson = some file) ∧
      ∀ a b : SourceFile, a.toJson = b.toJson ↔ a = b := by
  have hread : ∀ file : SourceFile, SourceFile.ofJson? file.toJson = some file := by
    intro file
    rw [SourceFile.ofJson?, SourceFile.toJson, String.toList_ofList, JsonValue.ofText?_render]
    exact SourceFile.ofJsonValue?_toJsonValue file
  refine ⟨hread, ?_⟩
  intro a b
  constructor
  · intro h
    have hb := hread b
    rw [← h, hread a] at hb
    exact Option.some.inj hb
  · intro h
    rw [h]

end DeclLang
