import Offside.Cursor.Basic
import Offside.Fault

/-!
# Indentation

The indentation of a line is the number of blanks before its first visible character. It is asked for at that character
and nowhere else, so asking elsewhere is a fault. `nextLine` goes from line to line, past the lines without a visible
character; `length_rest_nextLine_lt` says that from a place with an indentation it gets ahead.
-/

namespace Offside

namespace Cursor

/-- The indentation of the cursor's line, which must have its first visible character right after the cursor. -/
def indentLevel (c : Cursor) : Except Fault Nat :=
  if c.next?.any (!isBlank ·) then
    match c.lead.find? (!isBlank ·) with
    | some found => .error (.probedMidLine c.offset found)
    | none => .ok c.lead.length
  else .error (.probedBlank c.offset)

/-- The first visible character of the lines after the cursor's, or the end of the text. -/
def nextLine (c : Cursor) : Cursor :=
  (c.skipWhile (· != '\n')).skipWhile isBlank

@[simp] theorem text_nextLine (c : Cursor) : c.nextLine.text = c.text := by
  simp [nextLine]

/-- A place with an indentation is before a visible character. -/
theorem next?_of_indentLevel_eq_ok {c : Cursor} {level : Nat} (h : c.indentLevel = .ok level) :
    ∃ ch rest, c.rest = ch :: rest ∧ isBlank ch = false := by
  unfold indentLevel next? at h
  split at h
  · next hv => cases hr : c.rest with
    | nil => simp [hr] at hv
    | cons ch rest => exact ⟨ch, rest, rfl, by simpa [hr] using hv⟩
  · cases h

/-- From a place with an indentation the next line is strictly ahead. -/
theorem length_rest_nextLine_lt {c : Cursor} {level : Nat} (h : c.indentLevel = .ok level) :
    c.nextLine.rest.length < c.rest.length := by
  obtain ⟨ch, rest, hr, hch⟩ := next?_of_indentLevel_eq_ok h
  have hne : (ch != '\n') = true := by
    rw [bne_iff_ne]
    rintro rfl
    exact absurd hch (by decide)
  exact Nat.lt_of_le_of_lt (length_rest_skipWhile_le _ _) (length_rest_skipWhile_lt hr hne)

end Cursor

end Offside
