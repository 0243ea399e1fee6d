import DeclLang.LineDiff
import DeclLang.Proofs.Decimal
import DeclLang.Proofs.Text.Lines

/-!
# The lines that show edits

`LineEdit.display` writes an edit on a line, and `LineEdit.read?` reads it from there.  The number may
be wider than its column, and the content may look like the rest of the line: it is everything behind
the first bar (`LineEdit.read?_display`).

Contents without a line feed keep their edits apart, so a list of edits is told by the text of their
lines (`LineEdit.join_display_injective`).
-/

namespace DeclLang

namespace LineEdit

/-! ## Reading an edit -/

/-- What is behind the bar, if the text begins with it. -/
def afterBar? : List Char → Option String
  | ' ' :: '|' :: ' ' :: cs => some (.ofList cs)
  | _ => none

/-- Reading what is behind the sign: a number, with spaces before it or none, and the content behind
the bar. -/
def readRest? (action : Action) (cs : List Char) : Option LineEdit := do
  let cs := cs.dropWhile (· == ' ')
  let number ← Decimal.natural? (cs.takeWhile Char.isDigit)
  let content ← afterBar? (cs.dropWhile Char.isDigit)
  return ⟨action, number, content⟩

/-- Reading the line that shows an edit. -/
def read? (line : String) : Option LineEdit :=
  match line.toList with
  | '-' :: cs => readRest? .remove cs
  | '+' :: cs => readRest? .add cs
  | _ => none

theorem toList_display (edit : LineEdit) :
    edit.display.toList = edit.action.sign.toList ++
      (List.replicate (4 - (toString edit.number).length) ' ' ++
        (Nat.toDigits 10 edit.number ++ ' ' :: '|' :: ' ' :: edit.content.toList)) := by
  simp [display, Align.right, Align.spaces]

theorem readRest?_eq (action : Action) (pad number : Nat) (content : String) :
    readRest? action (List.replicate pad ' ' ++
      (Nat.toDigits 10 number ++ ' ' :: '|' :: ' ' :: content.toList)) =
        some ⟨action, number, content⟩ := by
  have hnumber := Decimal.isNumber_toDigits number
  have hspaces : ∀ c ∈ List.replicate pad ' ', (c == ' ') = true :=
    List.forall_mem_replicate.2 (.inr rfl)
  -- No number begins with a space, and none goes on with one.
  have hfield : EndsRun (· == ' ')
      (Nat.toDigits 10 number ++ ' ' :: '|' :: ' ' :: content.toList) := by
    obtain ⟨d, ds, hdigits, hall⟩ := hnumber
    have hd : d ≠ ' ' := by
      rintro rfl
      exact absurd (hall ' ' List.mem_cons_self) (by decide)
    rw [hdigits, List.cons_append, endsRun_cons, beq_eq_false_iff_ne]
    exact hd
  have hbar : EndsRun Char.isDigit (' ' :: '|' :: ' ' :: content.toList) :=
    endsRun_cons.2 (by decide)
  have hdigits : ∀ c ∈ Nat.toDigits 10 number, c.isDigit = true := fun c hc =>
    Nat.isDigit_of_mem_toDigits (by decide) (by decide) hc
  have hread : Decimal.natural? (Nat.toDigits 10 number) = some number := by
    rw [Decimal.natural?_eq_some_iff]
    exact ⟨hnumber, Nat.ofDigitChars_ten_toDigits⟩
  simp only [readRest?, dropWhile_append_of_endsRun hspaces hfield,
    takeWhile_append_of_endsRun hdigits hbar, dropWhile_append_of_endsRun hdigits hbar, hread]
  simp [afterBar?]

/-- An edit is read from its line. -/
theorem read?_display (edit : LineEdit) : read? edit.display = some edit := by
  obtain ⟨action, number, content⟩ := edit
  rw [read?, toList_display]
  cases action with
  | remove =>
    have hsign : Action.remove.sign.toList = ['-'] := by simp [Action.sign]
    rw [hsign]
    exact readRest?_eq _ _ _ _
  | add =>
    have hsign : Action.add.sign.toList = ['+'] := by simp [Action.sign]
    rw [hsign]
    exact readRest?_eq _ _ _ _

theorem mapM_read?_display (edits : List LineEdit) :
    (edits.map display).mapM read? = some edits := by
  induction edits with
  | nil => rfl
  | cons edit edits ih => simp [read?_display, ih]

/-! ## The lines of edits -/

theorem lineFeed_notMem_display {edit : LineEdit} (h : '\n' ∉ edit.content.toList) :
    '\n' ∉ edit.display.toList := by
  have hsign : '\n' ∉ edit.action.sign.toList := by
    cases edit.action <;> decide
  have hdigits : '\n' ∉ Nat.toDigits 10 edit.number := by
    intro hfeed
    exact absurd (Nat.isDigit_of_mem_toDigits (by decide) (by decide) hfeed) (by decide)
  rw [toList_display]
  simp [hsign, hdigits, h]

/-- The lines of edits are found in their text, as long as no content has a line feed. -/
theorem cutAtFeeds_displays {edits : List LineEdit}
    (h : ∀ edit ∈ edits, '\n' ∉ edit.content.toList) :
    Lines.CutAtFeeds (Lines.join (edits.map display)) (edits.map display) :=
  ⟨rfl, List.forall_mem_map.2 fun edit hedit => lineFeed_notMem_display (h edit hedit)⟩

/-- Edits whose contents have no line feed are told by the text of their lines. -/
theorem join_display_injective {edits others : List LineEdit}
    (hedits : ∀ edit ∈ edits, '\n' ∉ edit.content.toList)
    (hothers : ∀ edit ∈ others, '\n' ∉ edit.content.toList)
    (h : Lines.join (edits.map display) = Lines.join (others.map display)) : edits = others := by
  have hrows : edits.map display = others.map display :=
    Lines.join_injective (cutAtFeeds_displays hedits).lineFeed_notMem
      (cutAtFeeds_displays hothers).lineFeed_notMem h
  have hread := mapM_read?_display edits
  rw [hrows, mapM_read?_display] at hread
  exact (Option.some.inj hread).symm

end LineEdit

end DeclLang
