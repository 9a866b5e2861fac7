import Offside.Text.Quoted

/-!
# Cursors

A cursor is a place in a text, held as the text on either side of it. Moving never changes the text: `text_advance`,
`text_skipWhile` and `text_toLineStart` say so for each way to move. Places are between characters, so an offset in bytes
is never inside one.
-/

namespace Offside

/-- A place in a text. -/
structure Cursor where
  /-- The characters before the place, the nearest first. -/
  past : Text
  /-- The characters after the place. -/
  rest : Text
deriving DecidableEq

namespace Cursor

/-- The start of a text. -/
def start (t : Text) : Cursor :=
  ⟨[], t⟩

/-- The whole text that the cursor is in. -/
def text (c : Cursor) : Text :=
  c.past.reverse ++ c.rest

/-- The number of UTF-8 bytes before the cursor. -/
def offset (c : Cursor) : Nat :=
  c.past.utf8Size

/-- Whether the cursor is at the end of its text. -/
def isDone (c : Cursor) : Bool :=
  c.rest.isEmpty

/-- The character right after the cursor. -/
def next? (c : Cursor) : Option Char :=
  c.rest.head?

/-- The character right before the cursor. -/
def prev? (c : Cursor) : Option Char :=
  c.past.head?

/-- Whether a literal is right after the cursor. -/
def peek (c : Cursor) (literal : Text) : Bool :=
  literal.isPrefixOf c.rest

/-! ## Moving forward -/

/-- The cursor some characters further, at most at the end. -/
def advance (c : Cursor) (n : Nat) : Cursor :=
  ⟨(c.rest.take n).reverse ++ c.past, c.rest.drop n⟩

/-- The cursor some characters further, if there are so many. -/
def advance? (c : Cursor) (n : Nat) : Option Cursor :=
  if n ≤ c.rest.length then some (c.advance n) else none

/-- The cursor past the characters that satisfy a test, up to the first that does not. -/
def skipWhile (c : Cursor) (test : Char → Bool) : Cursor :=
  ⟨(c.rest.takeWhile test).reverse ++ c.past, c.rest.dropWhile test⟩

/-- The cursor some bytes further, if so many are left and they end between two characters. -/
def advanceBytes? (c : Cursor) (bytes : Nat) : Option Cursor :=
  (c.rest.charsIn? bytes).map c.advance

/-- The place at an offset in bytes of the cursor's text, if there is one. -/
def seek? (c : Cursor) (offset : Nat) : Option Cursor :=
  (start c.text).advanceBytes? offset

/-- The text between the cursor and a later place of the same text; no text if the place is earlier or past the end. -/
def slice? (c stop : Cursor) : Option Text :=
  if c.past.length ≤ stop.past.length ∧ stop.past.length ≤ c.past.length + c.rest.length then
    some (c.rest.take (stop.past.length - c.past.length))
  else none

/-! ## Lines -/

/-- What comes before the cursor on its line, the nearest character first. -/
def lead (c : Cursor) : Text :=
  c.past.takeWhile (· != '\n')

/-- The start of the cursor's line. -/
def toLineStart (c : Cursor) : Cursor :=
  ⟨c.past.dropWhile (· != '\n'), c.lead.reverse ++ c.rest⟩

/-- Whether only blanks come before the cursor on its line. -/
def atLineStart (c : Cursor) : Bool :=
  c.lead.all isBlank

/-- What is left of the cursor's line, without its newline. -/
def restOfLine (c : Cursor) : Text :=
  c.rest.firstLine

/-- The number of the cursor's line, from 1. -/
def line (c : Cursor) : Nat :=
  c.past.count '\n' + 1

/-- The number of the cursor's column, from 1, in characters. -/
def column (c : Cursor) : Nat :=
  c.lead.length + 1

/-! ## For reports -/

/-- At most so many characters of what is left, for error reports. -/
def window (c : Cursor) (width : Nat) : Text :=
  c.rest.take width

/-- The cursor's line and column. -/
def position (c : Cursor) : String :=
  "[" ++ toString c.line ++ ":" ++ toString c.column ++ "]"

/-- The cursor's whole text and its offset. -/
def describe (c : Cursor) : String :=
  "Cursor \x7b text: " ++ String.ofList (quoted c.text) ++ ", offset: " ++ toString c.offset ++ " \x7d"

/-! ## Moving keeps the text -/

@[simp] theorem text_start (t : Text) : (start t).text = t := rfl

@[simp] theorem offset_start (t : Text) : (start t).offset = 0 := rfl

@[simp] theorem text_advance (c : Cursor) (n : Nat) : (c.advance n).text = c.text := by
  simp [advance, text]

@[simp] theorem text_skipWhile (c : Cursor) (test : Char → Bool) : (c.skipWhile test).text = c.text := by
  simp [skipWhile, text]

@[simp] theorem text_toLineStart (c : Cursor) : c.toLineStart.text = c.text := by
  have h := congrArg List.reverse (List.takeWhile_append_dropWhile (p := (· != '\n')) (l := c.past))
  simp only [List.reverse_append] at h
  simp only [toLineStart, lead, text, ← List.append_assoc, h]

/-- Going past what satisfies a test leaves no more than there was. -/
theorem length_rest_skipWhile_le (c : Cursor) (test : Char → Bool) :
    (c.skipWhile test).rest.length ≤ c.rest.length :=
  (List.dropWhile_sublist _).length_le

/-- Where the first character satisfies the test, going past it leaves less. -/
theorem length_rest_skipWhile_lt {c : Cursor} {test : Char → Bool} {ch : Char} {rest : Text} (h : c.rest = ch :: rest)
    (hch : test ch) : (c.skipWhile test).rest.length < c.rest.length := by
  simp only [skipWhile, h, List.dropWhile_cons, hch, if_true, List.length_cons]
  exact Nat.lt_succ_of_le (List.dropWhile_sublist _).length_le

end Cursor

end Offside
