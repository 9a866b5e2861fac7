import Offside.Layout.Extent
import Offside.Parser.Basic
import Offside.Proofs.Bytes.Places
import Offside.Proofs.Layout.Lines

/-!
# Layout in bytes

Lines are found by offsets into the whole text: the next visible line from the end of this one, the reference line of an
extent from the start of this one. Here this is done on `BytePlace`, with a check wherever a part of the text is taken, and
with one more: going from line to line gets ahead. From the place of a cursor no check fails, and the lines are the same.
-/

namespace Offside

/-- The answer of a test at a place. -/
def Test.holdsInBytes (test : Test) (b : BytePlace) : Checked Bool :=
  match test with
  | atLineStart => b.atLineStart
  | bareLine => do
    let line := (← b.restOfLine).trim
    return line.isEmpty || "--".toList.isPrefixOf line
  | ahead literal => b.peek literal

namespace BytePlace

variable (b : BytePlace)

/-- The indentation of the line, which must have its first visible character right after the place. -/
def indentLevel : Checked Nat := do
  if (← b.next?).any (!isBlank ·) then
    let lead := (← b.past).reverse.takeWhile (· != '\n')
    match lead.find? (!isBlank ·) with
    | some found => throw (.fault (.probedMidLine b.offset found))
    | none => return lead.length
  else throw (.fault (.probedBlank b.offset))

/-- The first visible character of the lines after this one, or the end of the text. -/
def nextLine : Checked BytePlace := do
  let lineEnd := (((← b.rest).firstByte? (· == '\n')).map (b.offset + ·)).getD b.text.utf8Size
  let after ← b.text.onFrom lineEnd
  return ⟨b.text, ((after.firstByte? (!isBlank ·)).map (lineEnd + ·)).getD b.text.utf8Size⟩

/-- Past all lines in a row whose indentation passes a test. Each of them has to be further on. -/
def skipLines (keep : Nat → Bool) (b : BytePlace) : Checked BytePlace :=
  if _h : b.text.utf8Size ≤ b.offset then .ok b
  else do
    if !keep (← b.indentLevel) then return b
    let next ← b.nextLine
    if _hnext : next.text = b.text ∧ b.offset < next.offset then skipLines keep next
    else .error .outOfRange
termination_by b.text.utf8Size - b.offset
decreasing_by
  obtain ⟨htext, hlt⟩ := _hnext
  rw [htext]
  omega

/-- Past the line, and past the lines in a row whose indentation passes a test against that of the line. -/
def skipBlock (keep : Nat → Nat → Bool) : Checked BytePlace := do
  if b.isDone then return b
  let level ← b.indentLevel
  (← b.nextLine).skipLines (keep level)

/-- Where the extent that starts at the place stops. -/
def extentStop : Extent → Checked BytePlace
  | .block => b.skipBlock fun reference line => reference < line
  | .level => b.skipBlock fun reference line => reference ≤ line
  | .restOfBlock => do
    let start ← b.lineStart
    match (← start.restOfLine).firstByte? (!isBlank ·) with
    | none => b.advance (← b.restOfLine).utf8Size
    | some i =>
      let reference ← indentLevel ⟨b.text, start.offset + i⟩
      (← b.nextLine).skipLines fun line => reference < line

end BytePlace

namespace Cursor

variable (c : Cursor)

@[simp] theorem inBytes_holdsInBytes (test : Test) : test.holdsInBytes c.inBytes = .ok (test.holds c) := by
  cases test with
  | atLineStart => exact inBytes_atLineStart c
  | bareLine => simp [Test.holdsInBytes, Test.holds]
  | ahead literal => exact inBytes_peek c literal

@[simp] theorem inBytes_indentLevel : c.inBytes.indentLevel = c.indentLevel.mapError .fault := by
  simp only [BytePlace.indentLevel, inBytes_next?, inBytes_past, Checked.ok_bind, List.reverse_reverse, indentLevel]
  split
  · simp only [lead]
    cases (c.past.takeWhile (· != '\n')).find? (!isBlank ·) <;> rfl
  · rfl

/-- The offset of the first character that does not satisfy a test, in the whole text. -/
theorem firstByte?_offset (test : Char → Bool) :
    ((Text.firstByte? (!test ·) c.rest).map (c.offset + ·)).getD c.text.utf8Size = (c.skipWhile test).offset := by
  have hsize := Text.firstByte?_getD (!test ·) c.rest
  simp only [Bool.not_not] at hsize
  rw [offset_skipWhile, ← hsize, utf8Size_text]
  cases Text.firstByte? (!test ·) c.rest <;> rfl

@[simp] theorem inBytes_nextLine : c.inBytes.nextLine = .ok c.nextLine.inBytes := by
  have hline : ((Text.firstByte? (· == '\n') c.rest).map (c.offset + ·)).getD c.text.utf8Size =
      (c.skipWhile (· != '\n')).offset := by
    simpa [bne] using firstByte?_offset c (· != '\n')
  have hnext := firstByte?_offset (c.skipWhile (· != '\n')) isBlank
  have hafter := inBytes_rest (c.skipWhile (· != '\n'))
  rw [BytePlace.rest, inBytes_text, inBytes_offset, text_skipWhile] at hafter
  rw [text_skipWhile] at hnext
  simp only [BytePlace.nextLine, inBytes_rest, inBytes_text, inBytes_offset, Checked.ok_bind, hline, hafter, hnext]
  rw [inBytes, text_nextLine]
  rfl

/-- From a place with an indentation the next line has a larger offset. -/
theorem offset_lt_nextLine {c : Cursor} {level : Nat} (h : c.indentLevel = .ok level) : c.offset < c.nextLine.offset :=
  offset_lt_of_lt (lt_iff.mpr ⟨le_nextLine c, length_rest_nextLine_lt h⟩)

/-- From line to line the lines are the same, and each is further on. -/
theorem inBytes_skipLines (keep : Nat → Bool) :
    c.inBytes.skipLines keep = ((c.skipLines keep).map inBytes).mapError .fault := by
  have hend (c : Cursor) : c.inBytes.text.utf8Size ≤ c.inBytes.offset ↔ c.isDone := by
    rw [← inBytes_isDone, BytePlace.isDone, decide_eq_true_iff]
  fun_induction skipLines keep c with
  | case1 c hdone =>
    unfold BytePlace.skipLines
    rw [dif_pos ((hend c).mpr hdone)]
    rfl
  | case2 c hdone fault hlevel =>
    unfold BytePlace.skipLines
    rw [dif_neg (mt (hend c).mp hdone), inBytes_indentLevel, hlevel]
    rfl
  | case3 c hdone level hlevel hkeep ih =>
    unfold BytePlace.skipLines
    have hnext : c.nextLine.inBytes.text = c.inBytes.text ∧ c.inBytes.offset < c.nextLine.inBytes.offset :=
      ⟨text_nextLine c, offset_lt_nextLine hlevel⟩
    rw [dif_neg (mt (hend c).mp hdone), inBytes_indentLevel, hlevel, ← ih]
    simp only [Except.mapError, Checked.ok_bind, hkeep, inBytes_nextLine]
    exact dif_pos hnext
  | case4 c hdone level hlevel hkeep =>
    unfold BytePlace.skipLines
    rw [dif_neg (mt (hend c).mp hdone), inBytes_indentLevel, hlevel]
    simp only [Except.mapError, Checked.ok_bind, hkeep]
    rfl

theorem inBytes_skipBlock (keep : Nat → Nat → Bool) :
    c.inBytes.skipBlock keep = ((c.skipBlock keep).map inBytes).mapError .fault := by
  simp only [BytePlace.skipBlock, skipBlock, inBytes_isDone]
  split
  · rfl
  · rw [inBytes_indentLevel]
    cases c.indentLevel with
    | error fault => rfl
    | ok level =>
      simp only [Except.mapError, Checked.ok_bind, inBytes_nextLine]
      exact inBytes_skipLines c.nextLine (keep level)

/-- The blanks before the first visible character of a line are those before it in the text. -/
theorem takeWhile_restOfLine {c : Cursor} (h : ¬c.restOfLine.all isBlank) :
    c.restOfLine.takeWhile isBlank = c.rest.takeWhile isBlank := by
  have hsplit : c.restOfLine ++ c.rest.dropWhile (· != '\n') = c.rest := List.takeWhile_append_dropWhile
  have hlength : (c.restOfLine.takeWhile isBlank).length ≠ c.restOfLine.length := fun hlen =>
    h (List.all_eq_true.mpr (List.takeWhile_eq_self_iff.mp ((List.takeWhile_prefix isBlank).eq_of_length hlen)))
  rw [← hsplit, List.takeWhile_append, if_neg hlength]

/-- From the place of a cursor an extent stops in bytes where it does in characters. -/
theorem inBytes_extentStop (e : Extent) :
    c.inBytes.extentStop e = ((c.extentStop e).map inBytes).mapError .fault := by
  cases e with
  | block => exact inBytes_skipBlock c _
  | level => exact inBytes_skipBlock c _
  | restOfBlock =>
    simp only [BytePlace.extentStop, extentStop, inBytes_lineStart, inBytes_restOfLine, Checked.ok_bind]
    by_cases hblank : c.toLineStart.restOfLine.all isBlank
    · have hnone : Text.firstByte? (!isBlank ·) c.toLineStart.restOfLine = none := by
        simpa [Text.firstByte?_eq_none] using hblank
      have hline : c.restOfLine <+: c.rest := List.takeWhile_prefix _
      rw [hnone, if_pos hblank, skipWhile_eq_advance]
      exact inBytes_advance c c.restOfLine hline
    · have hbyte := Text.firstByte?_getD (!isBlank ·) c.toLineStart.restOfLine
      simp only [Bool.not_not] at hbyte
      rw [takeWhile_restOfLine hblank] at hbyte
      cases hfirst : Text.firstByte? (!isBlank ·) c.toLineStart.restOfLine with
      | none =>
        refine absurd ?_ hblank
        simpa using Text.firstByte?_eq_none.mp hfirst
      | some i =>
        obtain rfl : i = Text.utf8Size (c.toLineStart.rest.takeWhile isBlank) := by simpa [hfirst] using hbyte
        have hplace : ⟨c.text, c.toLineStart.offset + Text.utf8Size (c.toLineStart.rest.takeWhile isBlank)⟩ =
            (c.toLineStart.skipWhile isBlank).inBytes := by
          rw [inBytes, offset_skipWhile, text_skipWhile, text_toLineStart]
        simp only [inBytes_text, inBytes_offset, hplace, inBytes_indentLevel, if_neg hblank]
        cases (c.toLineStart.skipWhile isBlank).indentLevel with
        | error fault => rfl
        | ok level =>
          simp only [Except.mapError, Checked.ok_bind, inBytes_nextLine]
          exact inBytes_skipLines c.nextLine _

end Cursor

end Offside
