import DeclLang.Proofs.Lexical.Stretch
import DeclLang.Text.Lines

/-!
# Texts made of lines

Printers write their lines with a line feed behind each.  Such a text can be cut at its line feeds
again, and in one way only, as long as no line has a line feed of its own:
`Lines.CutAtFeeds text lines` says that the lines are found so.  It does not know of carriage returns,
which are part of their lines here, unlike in `Lines.ofString`.

`Lines.startAt` tells how many bytes of the text come before a line, and `Lines.after_join` where a
text begins that follows the lines.
-/

namespace DeclLang

namespace Lines

variable {text : String} {lines others : List String}

/-! ## Joining -/

theorem toList_join (lines : List String) :
    (join lines).toList = lines.flatMap fun line => line.toList ++ ['\n'] := by
  rw [join, String.toList_ofList]

@[simp]
theorem toList_join_nil : (join []).toList = [] := by simp [toList_join]

theorem toList_join_cons (line : String) (lines : List String) :
    (join (line :: lines)).toList = line.toList ++ '\n' :: (join lines).toList := by
  simp [toList_join]

theorem toList_join_append (lines others : List String) :
    (join (lines ++ others)).toList = (join lines).toList ++ (join others).toList := by
  simp [toList_join]

/-- A line and the text behind its line feed are told by the two put together. -/
theorem append_lineFeed_inj {line other more rest : List Char} (hline : '\n' ∉ line)
    (hother : '\n' ∉ other) (h : line ++ '\n' :: more = other ++ '\n' :: rest) :
    line = other ∧ more = rest := by
  have hrun : ∀ {cs : List Char}, '\n' ∉ cs → ∀ c ∈ cs, (c != '\n') = true := by
    intro cs hcs c hc
    simpa using ne_of_mem_of_not_mem hc hcs
  have hend : ∀ cs : List Char, ∀ c ∈ ('\n' :: cs).head?, (c != '\n') = false := by simp
  obtain ⟨hfront, hback⟩ :=
    append_inj_of_endsRun (hrun hline) (hend more) (hrun hother) (hend rest) h
  exact ⟨hfront, (List.cons.inj hback).2⟩

/-- Lines that have no line feed are told by the text that they are joined to. -/
theorem join_injective (hlines : ∀ line ∈ lines, '\n' ∉ line.toList)
    (hothers : ∀ line ∈ others, '\n' ∉ line.toList) (h : join lines = join others) :
    lines = others := by
  rw [← String.toList_inj] at h
  induction lines generalizing others with
  | nil =>
    cases others with
    | nil => rfl
    | cons other others => simp [toList_join_cons] at h
  | cons line lines ih =>
    cases others with
    | nil => simp [toList_join_cons] at h
    | cons other others =>
      obtain ⟨hline, hlater⟩ := List.forall_mem_cons.1 hlines
      obtain ⟨hother, hmore⟩ := List.forall_mem_cons.1 hothers
      rw [toList_join_cons, toList_join_cons] at h
      obtain ⟨hfirst, hrest⟩ := append_lineFeed_inj hline hother h
      rw [String.toList_inj.1 hfirst, ih hlater hmore hrest]

/-! ## Cutting -/

/-- The lines are what cutting the text at each line feed gives.  A line feed ends the text, if there
is any text. -/
structure CutAtFeeds (text : String) (lines : List String) : Prop where
  /-- The text is the lines, with a line feed behind each. -/
  eq_join : text = join lines
  /-- No line goes on over a line feed. -/
  lineFeed_notMem : ∀ line ∈ lines, '\n' ∉ line.toList

theorem CutAtFeeds.unique (h : CutAtFeeds text lines) (hothers : CutAtFeeds text others) :
    others = lines :=
  join_injective hothers.lineFeed_notMem h.lineFeed_notMem (hothers.eq_join.symm.trans h.eq_join)

/-! ## Where a line begins -/

/-- The number of bytes before the line with the given index, line feeds included. -/
def startAt (lines : List String) (index : Nat) : Nat := (join (lines.take index)).utf8ByteSize

theorem after_join (h : ∀ line ∈ lines, '\n' ∉ line.toList) {p : Position} (hp : p.column = 1) :
    p.after (join lines).toList =
      ⟨p.offset + (join lines).utf8ByteSize, p.line + lines.length, 1⟩ := by
  rw [← byteWidth_toList]
  induction lines generalizing p with
  | nil => simp [← hp]
  | cons line lines ih =>
    obtain ⟨hline, hlater⟩ := List.forall_mem_cons.1 h
    have hwidth : '\n'.utf8Size = 1 := rfl
    rw [toList_join_cons, Position.after_append, Position.after_cons,
      Position.after_of_notMem hline, Position.advance_lineFeed, ih hlater rfl, byteWidth_append,
      byteWidth_cons, hwidth, List.length_cons, Position.mk.injEq]
    dsimp only
    omega

/-- Where a line of a text begins: in the first column, and behind as many lines as its index says. -/
theorem after_join_take (h : ∀ line ∈ lines, '\n' ∉ line.toList) {index : Nat}
    (hindex : index ≤ lines.length) :
    Position.start.after (join (lines.take index)).toList =
      ⟨startAt lines index, index + 1, 1⟩ := by
  have hfirst : ∀ line ∈ lines.take index, '\n' ∉ line.toList := fun line hline =>
    h line (List.mem_of_mem_take hline)
  have hcount : (lines.take index).length = index := List.length_take_of_le hindex
  rw [after_join hfirst rfl, hcount, startAt, Position.mk.injEq]
  simp only [Position.start, and_true]
  omega

/-- A span that goes from the beginning of a line to its end covers that line. -/
theorem textIn_join {index : Nat} {line : String} {s : Span} (hline : lines[index]? = some line)
    (hstart : s.start = startAt lines index)
    (hstop : s.stop = startAt lines index + line.utf8ByteSize) : s.textIn (join lines) = line := by
  obtain ⟨hindex, rfl⟩ := List.getElem?_eq_some_iff.1 hline
  have hsplit : lines = lines.take index ++ lines[index] :: lines.drop (index + 1) := by
    rw [List.getElem_cons_drop, List.take_append_drop]
  have htext : (join lines).toList = (join (lines.take index)).toList ++ lines[index].toList ++
      '\n' :: (join (lines.drop (index + 1))).toList := by
    rw [List.append_assoc, ← toList_join_cons, ← toList_join_append, ← hsplit]
  rw [Span.textIn_eq htext, String.ofList_toList]
  · rw [hstart, byteWidth_toList, startAt]
  · rw [hstop, byteWidth_append, byteWidth_toList, byteWidth_toList, startAt]

end Lines

end DeclLang
