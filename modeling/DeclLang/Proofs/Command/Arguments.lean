import DeclLang.Command.Arguments
import Mathlib.Tactic.Common

/-!
# Files on the command line

Arguments can name a row of words and say nothing else: all of them are words, or the separator
stands among them and makes words of all that follows it (`Arguments.Names`).  Every signature that
takes many words takes that row from them (`readFrom_of_names`), and a signature that takes nothing
but words takes no other arguments (`read_eq_ok_iff`).  So a command line asks for files without a
command exactly if it names them and does not begin with a command
(`Command.ofArguments_eq_view_iff`), and with `parse` in front it asks for the same files
(`Command.ofArguments_parse_of_asksFor`).
-/

namespace DeclLang

namespace Arguments

theorem exists_of_bind_eq_ok {ε α β : Type} {checked : Except ε α} {next : α → Except ε β}
    {result : β} (h : checked >>= next = .ok result) :
    ∃ a, checked = .ok a ∧ next a = .ok result := by
  cases checked with
  | error cause => cases h
  | ok a => exact ⟨a, rfl, h⟩

/-! ## Signatures and pending words -/

/-- Whether a signature takes words and nothing else, and any number of them. -/
structure Signature.IsPlain (signature : Signature) : Prop where
  flags_eq : signature.flags = []
  settings_eq : signature.settings = []
  manyWords : signature.manyWords = true

/-- Whether no option is pending. -/
def Pending.IsSettled : Pending → Prop
  | .setting _ _ => False
  | _ => True

theorem Pending.isSettled_nothing : nothing.IsSettled := trivial

theorem Pending.isSettled_words (row : List String) : (words row).IsSettled := trivial

/-- The words that are pending. -/
def Pending.row : Pending → List String
  | .words row => row
  | _ => []

/-! ## Words and the separator -/

/-- A word does not look like an option: it does not begin with a dash, or it is a dash and nothing
else. -/
def LooksLikeWord (argument : String) : Prop := argument = "-" ∨ argument.toList.head? ≠ some '-'

/-- The arguments name the words: up to the separator, if there is one, they are these words, and
what is behind the separator is a word whatever it looks like. -/
inductive Names : List String → List String → Prop where
  | nil : Names [] []
  | word {word : String} {arguments words : List String} (hword : LooksLikeWord word)
      (h : Names arguments words) : Names (word :: arguments) (word :: words)
  | separator (words : List String) : Names ("--" :: words) words

theorem Names.of_words {words : List String} (h : ∀ word ∈ words, LooksLikeWord word) :
    Names words words := by
  induction words with
  | nil => exact .nil
  | cons word words ih =>
    obtain ⟨hword, hwords⟩ := List.forall_mem_cons.1 h
    exact .word hword (ih hwords)

theorem shape_eq_separator_iff {argument : String} :
    shape argument = .separator ↔ argument = "--" := by
  constructor
  · intro h
    unfold shape at h
    split at h
    · next hlist => exact String.toList_inj.1 hlist
    · cases h
    · cases h
    · cases h
  · rintro rfl
    rfl

theorem shape_eq_word_iff {argument : String} :
    shape argument = .word ↔ LooksLikeWord argument := by
  unfold shape LooksLikeWord
  rw [← String.toList_inj]
  split
  · next h => simp [h]
  · next h => simp [h]
  · next h => simp [h]
  · next hseparator hlong hshort =>
    refine iff_of_true rfl ?_
    by_cases hhead : argument.toList.head? = some '-'
    · obtain ⟨rest, hrest⟩ := List.head?_eq_some_iff.1 hhead
      cases rest with
      | nil => exact .inl hrest
      | cons c rest => exact (hshort _ _ hrest).elim
    · exact .inr hhead

/-! ## Reading words -/

theorem Given.settle_row {given : Given} {pending : Pending} (h : pending.IsSettled) :
    given.settle pending = given.settle (.words pending.row) := by
  cases pending with
  | nothing => simp [settle, Pending.row]
  | setting setting value => exact h.elim
  | words words => rfl

theorem Given.settle_words_eq_ok_iff {given result : Given} {words : List String} :
    given.settle (.words words) = .ok result ↔
      "" ∉ words ∧ result = { given with words := given.words ++ words } := by
  rw [settle]
  split
  · next hany =>
    have hmem : "" ∈ words := by simpa using hany
    exact iff_of_false nofun fun h => h.1 hmem
  · next hany =>
    have hnot : "" ∉ words := by simpa using hany
    rw [Except.ok.injEq, eq_comm, and_iff_right hnot]

section ReadFrom

variable {signature : Signature} {trailing : Bool} {given result : Given}
  {pending : Pending} {argument : String} {arguments words : List String}

theorem readFrom_word (hmany : signature.manyWords = true) (hpending : pending.IsSettled)
    (h : trailing = true ∨ shape argument = .word) :
    readFrom signature trailing given pending (argument :: arguments) =
      readFrom signature trailing given (.words (pending.row ++ [argument])) arguments := by
  cases pending with
  | nothing =>
    rw [readFrom, hmany]
    · rcases h with rfl | hshape
      · rfl
      · rw [hshape]
        cases trailing <;> rfl
    · nofun
    · nofun
  | setting setting value => exact hpending.elim
  | words words =>
    rw [readFrom, hmany]
    · rcases h with rfl | hshape
      · rfl
      · rw [hshape]
        cases trailing <;> rfl

theorem readFrom_separator (h : shape argument = .separator) :
    readFrom signature false given pending (argument :: arguments) =
      readFrom signature true given pending arguments := by
  rw [readFrom.eq_def]
  dsimp only
  rw [h]
  rfl

/-- Whatever looks like an option is refused where words only are taken. -/
theorem shape_of_readFrom (hplain : signature.IsPlain)
    (h : readFrom signature false given pending (argument :: arguments) = .ok result) :
    shape argument = .separator ∨ shape argument = .word := by
  rw [readFrom.eq_def] at h
  dsimp only at h
  rw [if_neg Bool.false_ne_true, hplain.flags_eq, hplain.settings_eq] at h
  cases hshape : shape argument with
  | separator => exact .inl rfl
  | word => exact .inr rfl
  | short letter =>
    rw [hshape] at h
    dsimp only at h
    split at h
    · obtain ⟨-, -, h⟩ := exists_of_bind_eq_ok h
      cases h
    · split at h
      · obtain ⟨-, -, h⟩ := exists_of_bind_eq_ok h
        cases h
      · cases h
  | long name value =>
    rw [hshape] at h
    dsimp only [List.find?_nil] at h
    split at h
    · cases value with
      | none =>
        obtain ⟨-, -, h⟩ := exists_of_bind_eq_ok h
        cases h
      | some value => cases h
    · cases h

/-- Behind the separator everything is a word. -/
theorem readFrom_trailing (hmany : signature.manyWords = true) (hpending : pending.IsSettled)
    (words : List String) : readFrom signature true given pending words =
      given.settle (.words (pending.row ++ words)) := by
  induction words generalizing pending with
  | nil => rw [List.append_nil, readFrom, Given.settle_row hpending]
  | cons word words ih =>
    rw [readFrom_word hmany hpending (.inl rfl), ih (Pending.isSettled_words _), Pending.row,
      List.append_assoc, List.singleton_append]

/-- Wherever many words are taken, the words are taken that the arguments name. -/
theorem readFrom_of_names (hmany : signature.manyWords = true) (hpending : pending.IsSettled)
    (h : Names arguments words) : readFrom signature false given pending arguments =
      given.settle (.words (pending.row ++ words)) := by
  induction h generalizing pending with
  | nil => rw [List.append_nil, readFrom, Given.settle_row hpending]
  | word hword _ ih =>
    rw [readFrom_word hmany hpending (.inr (shape_eq_word_iff.2 hword)),
      ih (Pending.isSettled_words _), Pending.row, List.append_assoc, List.singleton_append]
  | separator words =>
    rw [readFrom_separator (shape_eq_separator_iff.2 rfl), readFrom_trailing hmany hpending]

/-- Where words only are taken, nothing else is. -/
theorem exists_names_of_readFrom (hplain : signature.IsPlain) (hpending : pending.IsSettled)
    (h : readFrom signature false given pending arguments = .ok result) :
    ∃ words, Names arguments words := by
  induction arguments generalizing pending with
  | nil => exact ⟨[], .nil⟩
  | cons argument more ih =>
    rcases shape_of_readFrom hplain h with hseparator | hword
    · rw [shape_eq_separator_iff.1 hseparator]
      exact ⟨more, .separator more⟩
    · rw [readFrom_word hplain.manyWords hpending (.inr hword)] at h
      obtain ⟨words, hwords⟩ := ih (Pending.isSettled_words _) h
      exact ⟨argument :: words, .word (shape_eq_word_iff.1 hword) hwords⟩

theorem read_of_names (hmany : signature.manyWords = true) (h : Names arguments words) :
    read signature arguments = ({} : Given).settle (.words words) :=
  readFrom_of_names hmany Pending.isSettled_nothing h

/-- A signature that takes words only takes what names words, none of them empty. -/
theorem read_eq_ok_iff (hplain : signature.IsPlain) :
    read signature arguments = .ok result ↔
      ∃ words, Names arguments words ∧ "" ∉ words ∧ result = { words := words } := by
  constructor
  · intro h
    obtain ⟨words, hwords⟩ := exists_names_of_readFrom hplain Pending.isSettled_nothing h
    rw [read_of_names hplain.manyWords hwords] at h
    exact ⟨words, hwords, Given.settle_words_eq_ok_iff.1 h⟩
  · rintro ⟨words, hwords, hresult⟩
    rw [read_of_names hplain.manyWords hwords]
    exact Given.settle_words_eq_ok_iff.2 hresult

end ReadFrom

end Arguments

namespace Command

open Arguments

/-! ## Files without a command -/

/-- The arguments ask for files: they name them and nothing else, and each of the files has a
name. -/
structure AsksFor (arguments files : List String) : Prop where
  names : Names arguments files
  ne_nil : files ≠ []
  ne_empty : "" ∉ files

/-- The arguments begin with the name of a command. -/
def IsNamed (arguments : List String) : Prop :=
  ∃ name ∈ ["parse", "lex", "fmt", "help"], arguments.head? = some name

theorem readView_eq_view_iff {arguments files : List String} :
    readView arguments = .ok (.view files) ↔ AsksFor arguments files := by
  have hplain : Signature.IsPlain ⟨[], [], true, true⟩ := ⟨rfl, rfl, rfl⟩
  constructor
  · intro h
    obtain ⟨given, hgiven, h⟩ := exists_of_bind_eq_ok h
    obtain ⟨words, hwords, hempty, rfl⟩ := (read_eq_ok_iff hplain).1 hgiven
    split at h
    · cases h
    · next hne =>
      obtain rfl := Command.view.inj (Except.ok.inj h)
      exact ⟨hwords, by simpa using hne, hempty⟩
  · rintro ⟨hnames, hne, hempty⟩
    rw [readView, (read_eq_ok_iff hplain).2 ⟨files, hnames, hempty, rfl⟩]
    simp [bind, Except.bind, hne]

theorem readParse_ne_view (arguments files : List String) :
    readParse arguments ≠ .ok (.view files) := by
  intro h
  obtain ⟨given, -, h⟩ := exists_of_bind_eq_ok h
  split at h
  · cases h
  · cases h

theorem readLex_ne_view (arguments files : List String) :
    readLex arguments ≠ .ok (.view files) := by
  intro h
  obtain ⟨given, -, h⟩ := exists_of_bind_eq_ok h
  split at h
  · cases h
  · cases h

theorem readFmt_ne_view (arguments files : List String) :
    readFmt arguments ≠ .ok (.view files) := by
  intro h
  obtain ⟨given, -, h⟩ := exists_of_bind_eq_ok h
  cases h

/-- A command line asks for files without a command if it names them and does not begin with one,
and in no other case. -/
theorem ofArguments_eq_view_iff {arguments files : List String} :
    ofArguments arguments = .ok (.view files) ↔ ¬ IsNamed arguments ∧ AsksFor arguments files := by
  unfold ofArguments
  split
  · exact iff_of_false (readParse_ne_view _ _) fun h => h.1 ⟨"parse", by simp, rfl⟩
  · exact iff_of_false (readLex_ne_view _ _) fun h => h.1 ⟨"lex", by simp, rfl⟩
  · exact iff_of_false (readFmt_ne_view _ _) fun h => h.1 ⟨"fmt", by simp, rfl⟩
  · exact iff_of_false nofun fun h => h.1 ⟨"help", by simp, rfl⟩
  · next hparse hlex hfmt hhelp =>
    have hnamed : ¬ IsNamed arguments := by
      rintro ⟨name, hname, hhead⟩
      obtain ⟨more, rfl⟩ := List.head?_eq_some_iff.1 hhead
      simp only [List.mem_cons, List.not_mem_nil, or_false] at hname
      rcases hname with rfl | rfl | rfl | rfl
      · exact hparse more rfl
      · exact hlex more rfl
      · exact hfmt more rfl
      · exact hhelp more rfl
    rw [readView_eq_view_iff, and_iff_right hnamed]

theorem ofArguments_of_words {words : List String} (hne : words ≠ []) (hempty : "" ∉ words)
    (hwords : ∀ word ∈ words, LooksLikeWord word) (hnamed : ¬ IsNamed words) :
    ofArguments words = .ok (.view words) :=
  ofArguments_eq_view_iff.2 ⟨hnamed, .of_words hwords, hne, hempty⟩

example : ofArguments ["a.sap", "--", "--recover"] = .ok (.view ["a.sap", "--recover"]) := rfl

/-- Behind `parse`, arguments that ask for files ask for them to be parsed in the usual way. -/
theorem ofArguments_parse_of_asksFor {arguments files : List String} (h : AsksFor arguments files) :
    ofArguments ("parse" :: arguments) = .ok (.parse files .tree false 2) := by
  have hread : Arguments.read ⟨[.recover], [.emit, .indent], true, false⟩ arguments =
      .ok { words := files } := by
    rw [read_of_names rfl h.names]
    exact Given.settle_words_eq_ok_iff.2 ⟨h.ne_empty, rfl⟩
  rw [ofArguments, readParse, hread]
  simp [bind, Except.bind, h.ne_nil]

end Command

end DeclLang
