import DeclLang.Proofs.Lexical.Spelling
import DeclLang.Text.Visible

/-!
# Text shown inside a message is told by how it is shown

A character that is shown between double quotes takes one character or several, but where it ends
can be seen: `Visible.read?` reads it from the front of a text and tells what is left
(`Visible.read?_escape`).  So texts that are shown alike are the same (`Visible.string_injective`).

Whatever the text has in it, it is shown on one line (`Visible.lineFeed_notMem_string`).
-/

namespace DeclLang

namespace Visible

/-! ## Hexadecimal numbers -/

/-- The hexadecimal digits, in the order of their values. -/
def hexDigits : List Char := (List.range 16).map Nat.digitChar

/-- The number that hexadecimal digits write. -/
def hexValue (digits : List Char) : Nat := digits.foldl (fun n c => 16 * n + hexDigits.idxOf c) 0

theorem idxOf_digitChar : ∀ n < 16, hexDigits.idxOf (Nat.digitChar n) = n := by decide

theorem hexValue_toDigits (n : Nat) : hexValue (Nat.toDigits 16 n) = n := by
  induction n using Nat.strongRecOn with
  | ind n ih =>
    rcases Nat.lt_or_ge n 16 with hlt | hge
    · rw [Nat.toDigits_of_lt_base hlt]
      simp [hexValue, idxOf_digitChar n hlt]
    · have hhigh := ih (n / 16) (by omega)
      have hlow := idxOf_digitChar (n % 16) (Nat.mod_lt n (by decide))
      rw [hexValue] at hhigh
      rw [Nat.toDigits_of_base_le (by decide) hge, hexValue, List.foldl_append, hhigh]
      simp only [List.foldl_cons, List.foldl_nil, hlow]
      exact Nat.div_add_mod n 16

theorem mem_hexDigits {n : Nat} {c : Char} (h : c ∈ Nat.toDigits 16 n) : c ∈ hexDigits := by
  induction n using Nat.strongRecOn with
  | ind n ih =>
    rcases Nat.lt_or_ge n 16 with hlt | hge
    · rw [Nat.toDigits_of_lt_base hlt, List.mem_singleton] at h
      rw [h]
      exact List.mem_map_of_mem (List.mem_range.2 hlt)
    · rw [Nat.toDigits_of_base_le (by decide) hge, List.mem_append, List.mem_singleton] at h
      rcases h with hhigh | rfl
      · exact ih (n / 16) (by omega) hhigh
      · exact List.mem_map_of_mem (List.mem_range.2 (Nat.mod_lt n (by decide)))

/-! ## Reading a character -/

/-- The character that a backslash and `c` stand for together. -/
def meant? : Char → Option Char
  | '0' => some '\x00'
  | 't' => some '\t'
  | 'r' => some '\r'
  | 'n' => some '\n'
  | '\\' => some '\\'
  | '"' => some '"'
  | _ => none

/-- Reading a character from the text between double quotes. -/
def read? : List Char → Option (Char × List Char)
  | [] => none
  | '\\' :: 'u' :: '\x7b' :: cs =>
    some (.ofNat (hexValue (cs.takeWhile (· != '\x7d'))), (cs.dropWhile (· != '\x7d')).tail)
  | '\\' :: c :: cs => (meant? c).map fun d => (d, cs)
  | c :: cs => some (c, cs)

/-- A character is shown with a character behind a backslash, by its number, or as it is. -/
theorem escape_cases (c : Char) :
    (∃ w, escape '"' c = ['\\', w] ∧ meant? w = some c) ∨
      escape '"' c = '\\' :: 'u' :: '\x7b' :: Nat.toDigits 16 c.toNat ++ ['\x7d'] ∨
      (c ≠ '\\' ∧ c ≠ '"' ∧ c ≠ '\n' ∧ escape '"' c = [c]) := by
  unfold escape
  split_ifs with hnul htab hreturn hfeed hself hunprintable
  case pos => exact .inl ⟨_, rfl, by rw [hnul]; rfl⟩
  case pos => exact .inl ⟨_, rfl, by rw [htab]; rfl⟩
  case pos => exact .inl ⟨_, rfl, by rw [hreturn]; rfl⟩
  case pos => exact .inl ⟨_, rfl, by rw [hfeed]; rfl⟩
  case pos =>
    rcases hself with rfl | rfl
    · exact .inl ⟨_, rfl, rfl⟩
    · exact .inl ⟨_, rfl, rfl⟩
  case pos => exact .inr (.inl rfl)
  case neg =>
    obtain ⟨hslash, hquote⟩ := not_or.1 hself
    exact .inr (.inr ⟨hslash, hquote, hfeed, rfl⟩)

/-- A character is read from the way it is shown, whatever is behind it. -/
theorem read?_escape (c : Char) (rest : List Char) :
    read? (escape '"' c ++ rest) = some (c, rest) := by
  rcases escape_cases c with ⟨w, hescape, hw⟩ | hescape | ⟨hslash, -, -, hescape⟩
  · have hu : w ≠ 'u' := by
      rintro rfl
      cases hw
    rw [hescape, List.cons_append, List.singleton_append, read?, hw]
    · rfl
    · rintro _ rfl
      exact absurd rfl hu
  · -- The number goes on up to the brace that closes it.
    have hdigits : ∀ d ∈ Nat.toDigits 16 c.toNat, (d != '\x7d') = true := fun d hd =>
      List.all_eq_true.1 (by decide : hexDigits.all (· != '\x7d') = true) d (mem_hexDigits hd)
    have hclose : ∀ d ∈ ('\x7d' :: rest).head?, (d != '\x7d') = false := by simp
    have hshown : escape '"' c ++ rest =
        '\\' :: 'u' :: '\x7b' :: (Nat.toDigits 16 c.toNat ++ '\x7d' :: rest) := by
      rw [hescape]
      simp
    rw [hshown, read?, takeWhile_append_of_endsRun hdigits hclose,
      dropWhile_append_of_endsRun hdigits hclose, hexValue_toDigits, Char.ofNat_toNat]
    rfl
  · rw [hescape, List.singleton_append, read?]
    · exact fun _ h => absurd h hslash
    · exact fun _ _ h => absurd h hslash

/-! ## Texts -/

theorem escape_ne_nil (c : Char) : escape '"' c ≠ [] := by
  rcases escape_cases c with ⟨w, hescape, -⟩ | hescape | ⟨-, -, -, hescape⟩
  all_goals
    rw [hescape]
    exact List.cons_ne_nil _ _

theorem flatMap_escape_injective : Function.Injective (List.flatMap (escape '"')) := by
  intro cs
  induction cs with
  | nil =>
    intro ds h
    cases ds with
    | nil => rfl
    | cons d ds => exact absurd (List.append_eq_nil_iff.1 h.symm).1 (escape_ne_nil d)
  | cons c cs ih =>
    intro ds h
    cases ds with
    | nil => exact absurd (List.append_eq_nil_iff.1 h).1 (escape_ne_nil c)
    | cons d ds =>
      rw [List.flatMap_cons, List.flatMap_cons] at h
      have hread := read?_escape c (cs.flatMap (escape '"'))
      rw [h, read?_escape] at hread
      obtain ⟨rfl, hrest⟩ := Prod.mk.inj (Option.some.inj hread)
      rw [ih hrest.symm]

/-- Texts that are shown alike are the same. -/
theorem string_injective : Function.Injective string := by
  intro text other h
  have hshown : ('"' :: text.toList.flatMap (escape '"')) ++ ['"'] =
      ('"' :: other.toList.flatMap (escape '"')) ++ ['"'] := String.ofList_injective h
  have hbody := (List.cons.inj (List.append_cancel_right hshown)).2
  exact String.toList_injective (flatMap_escape_injective hbody)

theorem lineFeed_notMem_escape (c : Char) : '\n' ∉ escape '"' c := by
  intro h
  rcases escape_cases c with ⟨w, hescape, hw⟩ | hescape | ⟨-, -, hfeed, hescape⟩
  · rw [hescape] at h
    obtain rfl : w = '\n' := by simpa [eq_comm] using h
    cases hw
  · rw [hescape] at h
    have hdigits : '\n' ∈ Nat.toDigits 16 c.toNat := by simpa using h
    exact absurd (mem_hexDigits hdigits) (by decide)
  · rw [hescape, List.mem_singleton] at h
    exact hfeed h.symm

/-- However many lines a text has, it is shown on one. -/
theorem lineFeed_notMem_string (text : String) : '\n' ∉ (string text).toList := by
  have hbody : '\n' ∉ text.toList.flatMap (escape '"') := by
    intro h
    obtain ⟨c, -, hc⟩ := List.mem_flatMap.1 h
    exact lineFeed_notMem_escape c hc
  rw [string, String.toList_ofList]
  simp [hbody]

end Visible

end DeclLang
