import Offside.Proofs.Layout.Lines

/-!
# Bodies

A keyword is followed by its body: on the lines below where nothing but a comment is left of the cursor's line, and from
the cursor on elsewhere. `bodyStart` and `bodyStop` tell where the body of a keyword begins and stops, for a cursor past the
keyword; it stops at the end of the text or at a line that is too far out to go with it, `bodyStop_outdents`.
-/

namespace Offside

namespace Cursor

/-- Where the text begins that the body of a keyword is read in, for a cursor past the keyword. -/
def bodyStart (c : Cursor) : Cursor :=
  if Test.bareLine.holds c then c.nextLine.toLineStart else c

/-- Where that text stops. -/
def bodyStop (c : Cursor) : Except Fault Cursor :=
  if Test.bareLine.holds c then c.nextLine.extentStop .level else c.extentStop .restOfBlock

/-- The text that the body of a keyword is read in, for a cursor past the keyword, and the place where it stops. -/
structure Body (c : Cursor) (span : Text) (last : Cursor) : Prop where
  /-- Where it stops. -/
  stop : c.bodyStop = .ok last
  /-- The text up to there. -/
  slice : c.bodyStart.slice? last = some span

/-- A line opens at the second place that does not go with a body which begins past the first: it is indented less than
the line on which the body begins or, where that is the line of the keyword, at most as far. -/
inductive Outdents (c e : Cursor) : Prop where
  | below {reference level : Nat} (bare : Test.bareLine.holds c) (first : c.nextLine.indentLevel = .ok reference)
      (line : e.indentLevel = .ok level) (lt : level < reference)
  | beside {reference level : Nat} (visible : ¬Test.bareLine.holds c)
      (own : (c.toLineStart.skipWhile isBlank).indentLevel = .ok reference) (line : e.indentLevel = .ok level)
      (le : level ≤ reference)

variable {c d : Cursor}

/-- The scan of lines stops at the end, or at a line whose indentation fails the test. -/
theorem isDone_or_not_keep_of_skipLines {keep : Nat → Bool} (h : c.skipLines keep = .ok d) :
    d.isDone ∨ ∃ level, d.indentLevel = .ok level ∧ keep level = false := by
  fun_induction skipLines keep c with
  | case1 c hdone =>
    obtain rfl : c = d := by simpa using h
    exact Or.inl hdone
  | case2 c _ fault _ => cases h
  | case3 c _ level _ _ ih => exact ih h
  | case4 c _ level hl hk =>
    obtain rfl : c = d := by simpa using h
    exact Or.inr ⟨level, hl, by simpa using hk⟩

/-- The lines at the cursor's level stop at the end, or at a line that is indented less. -/
theorem isDone_or_lt_of_level (h : c.extentStop .level = .ok d) :
    d.isDone ∨ ∃ reference level, c.indentLevel = .ok reference ∧ d.indentLevel = .ok level ∧ level < reference := by
  simp only [extentStop, skipBlock] at h
  split at h
  · next hdone =>
    obtain rfl : c = d := by simpa using h
    exact Or.inl hdone
  · cases hl : c.indentLevel with
    | error fault => simp [hl, Except.bind] at h
    | ok reference =>
      simp only [hl, Except.bind] at h
      refine (isDone_or_not_keep_of_skipLines h).imp_right ?_
      rintro ⟨level, hlevel, hlt⟩
      exact ⟨reference, level, rfl, hlevel, by simpa using hlt⟩

/-- The rest of a block, on a line with something visible, stops at the end or at a line that is indented no further. -/
theorem isDone_or_le_of_restOfBlock (hvisible : ¬c.toLineStart.restOfLine.all isBlank)
    (h : c.extentStop .restOfBlock = .ok d) :
    d.isDone ∨ ∃ reference level, (c.toLineStart.skipWhile isBlank).indentLevel = .ok reference ∧
      d.indentLevel = .ok level ∧ level ≤ reference := by
  simp only [extentStop, if_neg hvisible] at h
  cases hl : (c.toLineStart.skipWhile isBlank).indentLevel with
  | error fault => simp [hl, Except.bind] at h
  | ok reference =>
    simp only [hl, Except.bind] at h
    refine (isDone_or_not_keep_of_skipLines h).imp_right ?_
    rintro ⟨level, hlevel, hle⟩
    exact ⟨reference, level, rfl, hlevel, by simpa using hle⟩

/-- A line with more than a comment after the cursor is not blank. -/
theorem visible_of_not_bareLine (h : Test.bareLine.holds c = false) : ¬c.toLineStart.restOfLine.all isBlank := by
  intro hblank
  rw [restOfLine_toLineStart, List.all_append, Bool.and_eq_true] at hblank
  have hdrop : c.restOfLine.dropWhile isBlank = [] := by
    rw [List.dropWhile_eq_nil_iff]
    simpa using hblank.2
  simp [Test.holds, Text.trim, hdrop, Text.trimEnd] at h

/-- At the end of a line nothing is left of it. -/
theorem bareLine_endOfLine (c : Cursor) : Test.bareLine.holds (c.skipWhile (· != '\n')) := by
  have hline : (c.skipWhile (· != '\n')).restOfLine = [] := (takeWhile_of_head? (next?_skipWhile c _)).1
  rw [Test.holds, hline]
  rfl

/-- From the end of a line, as from a place on it, the next line is the one below. -/
theorem nextLine_endOfLine (c : Cursor) : (c.skipWhile (· != '\n')).nextLine = c.nextLine := by
  rw [nextLine, skipWhile_skipWhile, nextLine]

/-- A body that is announced by a whole line begins on the line below. -/
theorem bodyStart_endOfLine (c : Cursor) : (c.skipWhile (· != '\n')).bodyStart = c.nextLine.toLineStart := by
  rw [bodyStart, if_pos (bareLine_endOfLine c), nextLine_endOfLine]

theorem bodyStop_endOfLine (c : Cursor) : (c.skipWhile (· != '\n')).bodyStop = c.nextLine.extentStop .level := by
  rw [bodyStop, if_pos (bareLine_endOfLine c), nextLine_endOfLine]

/-- A body begins in the text of its keyword. -/
theorem text_bodyStart (c : Cursor) : c.bodyStart.text = c.text := by
  unfold bodyStart
  split
  · rw [text_toLineStart, text_nextLine]
  · rfl

/-- The text of a body is what comes next where it begins, up to where it stops. -/
theorem Body.prefix_rest {span : Text} (h : c.Body span d) : span <+: c.bodyStart.rest := by
  have hslice := h.slice
  rw [slice?] at hslice
  split at hslice
  · obtain rfl : c.bodyStart.rest.take _ = span := by simpa using hslice
    exact List.take_prefix _ _
  · cases hslice

/-- A body stops at the end of the text or at a line that does not go with it. -/
theorem bodyStop_outdents (h : c.bodyStop = .ok d) : d.isDone ∨ c.Outdents d := by
  unfold bodyStop at h
  split at h
  · next hbare =>
    refine (isDone_or_lt_of_level h).imp_right ?_
    rintro ⟨reference, level, hfirst, hline, hlt⟩
    exact .below hbare hfirst hline hlt
  · next hbare =>
    refine (isDone_or_le_of_restOfBlock (visible_of_not_bareLine (by simpa using hbare)) h).imp_right ?_
    rintro ⟨reference, level, hown, hline, hle⟩
    exact .beside hbare hown hline hle

end Cursor

end Offside
