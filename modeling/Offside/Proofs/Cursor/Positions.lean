import Mathlib.Data.Prod.Lex
import Offside.Proofs.Bytes.Places
import Offside.Proofs.Layout.Blocks

/-!
# Lines and columns

A place is reported by its line and its column. The line counts the newlines before the place, in the whole text; the column
looks back from the place to the nearest of them. Character by character the two get larger, the line before the column
(`lineColumn_strictMono`), so of one text no two places have the same. And they lead back: going on from the start, past the
newlines before the line and then past the characters before the column, gets to the place (`placeAt?_line_column`).
-/

namespace Offside

namespace Cursor

variable {c d : Cursor}

/-! ## Further on in the text -/

/-- The line and the column, the line being looked at first. -/
def lineColumn (c : Cursor) : Nat ×ₗ Nat :=
  toLex (c.line, c.column)

/-- Past a newline is the start of the next line. -/
theorem lineColumn_newline (past rest : Text) :
    (mk ('\n' :: past) rest).lineColumn = toLex ((mk past ('\n' :: rest)).line + 1, 1) := by
  simp [lineColumn, line, column, lead]

/-- Past any other character is the next column. -/
theorem lineColumn_cons {ch : Char} (h : ch ≠ '\n') (past rest : Text) :
    (mk (ch :: past) rest).lineColumn = toLex ((mk past (ch :: rest)).line, (mk past (ch :: rest)).column + 1) := by
  simp [lineColumn, line, column, lead, h]

/-- One character further on the line is larger, or else the column. -/
theorem lineColumn_lt_next (ch : Char) (past rest : Text) :
    (mk past (ch :: rest)).lineColumn < (mk (ch :: past) rest).lineColumn := by
  by_cases hch : ch = '\n'
  · subst hch
    rw [lineColumn_newline]
    exact Prod.Lex.toLex_lt_toLex.mpr (Or.inl (Nat.lt_succ_self _))
  · rw [lineColumn_cons hch]
    exact Prod.Lex.toLex_lt_toLex.mpr (Or.inr ⟨rfl, Nat.lt_succ_self _⟩)

/-- So it is any number of characters further on. -/
theorem lineColumn_lt_append (ch : Char) (passed past rest : Text) :
    (mk past (ch :: passed ++ rest)).lineColumn < (mk (passed.reverse ++ ch :: past) rest).lineColumn := by
  induction passed generalizing ch past with
  | nil => exact lineColumn_lt_next ch past rest
  | cons next passed ih =>
    rw [List.reverse_cons, List.append_assoc, List.singleton_append]
    exact (lineColumn_lt_next ch past _).trans (ih next (ch :: past))

/-- Of two places in order the later one has the larger line, or on one line the larger column. -/
theorem lineColumn_strictMono : StrictMono lineColumn := by
  intro c d hlt
  obtain ⟨⟨passed, hrest, hpast⟩, hshort⟩ := lt_iff.mp hlt
  obtain ⟨past, rest⟩ := c
  obtain ⟨past', rest'⟩ := d
  dsimp only at hrest hpast hshort
  subst hrest hpast
  cases passed with
  | nil => exact absurd hshort (Nat.lt_irrefl _)
  | cons ch passed =>
    rw [List.reverse_cons, List.append_assoc, List.singleton_append]
    exact lineColumn_lt_append ch passed past rest'

/-! ## Places of one text -/

/-- What gets larger from each place to a later one tells which of two places of one text comes first. -/
theorem lt_iff_of_strictMono {α : Type} [Preorder α] {measure : Cursor → α} (hmono : StrictMono measure)
    (htext : c.text = d.text) : c < d ↔ measure c < measure d := by
  refine ⟨fun hlt => hmono hlt, fun hlt => (lt_or_le_of_text_eq htext).resolve_right fun hle => ?_⟩
  rcases eq_or_lt_of_le hle with rfl | hback
  · exact lt_irrefl _ hlt
  · exact lt_asymm hlt (hmono hback)

theorem offset_strictMono : StrictMono offset := fun _ _ => offset_lt_of_lt

/-- In one text the offsets are in the order of the lines and columns. -/
theorem offset_lt_iff (htext : c.text = d.text) : c.offset < d.offset ↔ c.lineColumn < d.lineColumn :=
  (lt_iff_of_strictMono offset_strictMono htext).symm.trans (lt_iff_of_strictMono lineColumn_strictMono htext)

/-- In one text the same line and column are the same offset. -/
theorem offset_eq_iff (htext : c.text = d.text) : c.offset = d.offset ↔ c.line = d.line ∧ c.column = d.column := by
  have hpair : c.line = d.line ∧ c.column = d.column ↔ c.lineColumn = d.lineColumn := by
    rw [lineColumn, lineColumn, toLex_inj, Prod.mk.injEq]
  rw [hpair, eq_iff_le_not_lt, eq_iff_le_not_lt, ← not_lt, ← not_lt, offset_lt_iff htext, offset_lt_iff htext.symm]

/-! ## Back from the line and the column -/

/-- The place right behind the next newline, if there is one. -/
def afterNewline? (c : Cursor) : Option Cursor :=
  (c.skipWhile (· != '\n')).advance? 1

/-- The place right behind so many newlines, if there are as many. -/
def afterNewlines? (c : Cursor) : Nat → Option Cursor
  | 0 => some c
  | n + 1 => (c.afterNewlines? n).bind afterNewline?

/-- From before a newline on its line, the place behind it comes next. -/
theorem afterNewline?_toLineStart (past rest : Text) :
    (mk past ('\n' :: rest)).toLineStart.afterNewline? = some ⟨'\n' :: past, rest⟩ := by
  rw [afterNewline?, skipWhile_line_toLineStart, skipWhile_eq_self (by simp [next?])]
  rfl

/-- Behind the newlines that come before a place its line starts. -/
theorem afterNewlines?_toLineStart (past rest : Text) :
    (start (mk past rest).text).afterNewlines? (past.count '\n') = some (mk past rest).toLineStart := by
  induction past generalizing rest with
  | nil => rfl
  | cons ch past ih =>
    have htext : (mk (ch :: past) rest).text = (mk past (ch :: rest)).text := by simp [text]
    rw [htext]
    by_cases hch : ch = '\n'
    · subst hch
      rw [List.count_cons_self, afterNewlines?, ih, Option.bind_some, afterNewline?_toLineStart]
      rfl
    · have hline : (mk ([ch].reverse ++ past) rest).toLineStart = (mk past ([ch] ++ rest)).toLineStart :=
        toLineStart_append (by simpa using hch)
      rw [List.count_cons_of_ne hch, ih]
      exact congrArg some hline.symm

/-- The place of a text with a line and a column: past the newlines before the line, and then past the characters before the
column. -/
def placeAt? (t : Text) (line column : Nat) : Option Cursor :=
  ((start t).afterNewlines? (line - 1)).bind (·.advance? (column - 1))

/-- A place is past what comes before it on its line. -/
theorem advance?_toLineStart (c : Cursor) : c.toLineStart.advance? c.lead.length = some c := by
  rw [advance?_eq_some (by simp [toLineStart]), advance, toLineStart]
  simp [lead]

/-- The line and the column of a place lead to it. -/
theorem placeAt?_line_column (c : Cursor) : placeAt? c.text c.line c.column = some c := by
  rw [placeAt?, line, column, Nat.add_sub_cancel, Nat.add_sub_cancel, afterNewlines?_toLineStart, Option.bind_some,
    advance?_toLineStart]

/-- A line and a column name a place: they lead to it, and of the offsets of its text they are those of its own only. -/
structure NamedBy (c : Cursor) (line column : Nat) : Prop where
  /-- From the start of the text they lead to the place. -/
  leads : placeAt? c.text line column = some c
  /-- No other offset has this line and this column. -/
  only : ∀ d : Cursor, d.text = c.text → (d.line = line ∧ d.column = column ↔ d.offset = c.offset)

/-- A place is named by its line and its column, and by no others. -/
theorem namedBy_iff {line column : Nat} : c.NamedBy line column ↔ line = c.line ∧ column = c.column := by
  constructor
  · intro h
    obtain ⟨hline, hcolumn⟩ := (h.only c rfl).mpr rfl
    exact ⟨hline.symm, hcolumn.symm⟩
  · rintro ⟨rfl, rfl⟩
    exact ⟨placeAt?_line_column c, fun _ htext => (offset_eq_iff htext).symm⟩

end Cursor

end Offside
