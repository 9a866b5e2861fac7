import Offside.Proofs.Layout.Lines

/-!
# More lines after a text

`Cursor.continued` is the same place with a newline and more text after the text that it is in. What is found before the
end of the text is found again: words, runs of characters and lines that end earlier, and extents that stop earlier.
-/

namespace Offside

namespace Text

variable {literal more : Text}

/-- A literal without newlines does not reach over a newline. -/
theorem isPrefixOf_append_newline (h : '\n' ∉ literal) (t more : Text) :
    literal.isPrefixOf (t ++ '\n' :: more) = literal.isPrefixOf t := by
  induction t generalizing literal with
  | nil =>
    cases literal with
    | nil => rfl
    | cons ch literal =>
      rw [List.mem_cons, not_or] at h
      simp [List.isPrefixOf, Ne.symm h.1]
  | cons first t ih =>
    cases literal with
    | nil => rfl
    | cons ch literal =>
      rw [List.mem_cons, not_or] at h
      rw [List.cons_append, List.isPrefixOf, List.isPrefixOf, ih h.2]

/-- A literal that is not found in the lines after is found in the text alone. -/
theorem indexOf?_append_newline (h : '\n' ∉ literal) (hmore : literal ≠ [] → more.indexOf? literal = none) (t : Text) :
    (t ++ '\n' :: more).indexOf? literal = t.indexOf? literal := by
  induction t with
  | nil =>
    cases literal with
    | nil => rfl
    | cons ch literal =>
      have hmiss := isPrefixOf_append_newline h [] more
      rw [List.nil_append] at hmiss ⊢
      rw [indexOf?.eq_2, hmiss, hmore (by simp)]
      rfl
  | cons first t ih =>
    have hhere := isPrefixOf_append_newline h (first :: t) more
    rw [List.cons_append] at hhere ⊢
    rw [indexOf?, hhere, ih, indexOf?]

end Text

namespace Cursor

/-- The same place, with a newline and more text after the text that it is in. -/
def continued (c : Cursor) (more : Text) : Cursor :=
  ⟨c.past, c.rest ++ '\n' :: more⟩

variable {c d : Cursor} {more : Text}

/-- Nothing before a place that is not at the end is at the end. -/
theorem isDone_eq_false_of_le (hle : c ≤ d) (hd : d.isDone = false) : c.isDone = false := by
  by_contra hend
  rw [eq_of_isDone_of_le (by simpa using hend) hle] at hd
  exact hend hd

theorem next?_continued (h : c.isDone = false) : (c.continued more).next? = c.next? := by
  obtain ⟨past, rest⟩ := c
  cases rest with
  | nil => cases h
  | cons ch rest => rfl

theorem isDone_continued (c : Cursor) (more : Text) : (c.continued more).isDone = false := by
  simp [continued, isDone]

theorem advance_continued {n : Nat} (hn : n ≤ c.rest.length) : (c.continued more).advance n = (c.advance n).continued more := by
  simp only [continued, advance, List.take_append_of_le_length hn, List.drop_append_of_le_length hn]

/-- A newline after the text sets a word off as the end of the text does. -/
theorem next?_all_continued {test : Char → Bool} (htest : test '\n') (c : Cursor) (more : Text) :
    (c.continued more).next?.all test = c.next?.all test := by
  obtain ⟨past, rest⟩ := c
  cases rest <;> simp [continued, next?, htest]

/-- A word without newlines is found where it is without the lines after. -/
theorem matchesWord_continued {word : Text} (hword : '\n' ∉ word) (c : Cursor) (more : Text) :
    (c.continued more).matchesWord word = c.matchesWord word := by
  have hpeek : (c.continued more).peek word = c.peek word := Text.isPrefixOf_append_newline hword c.rest more
  rw [matchesWord, matchesWord, hpeek]
  cases hnext : c.peek word with
  | false => simp
  | true =>
    have hle : word.length ≤ c.rest.length := (List.isPrefixOf_iff_prefix.mp hnext).length_le
    have hblank : isBlank '\n' = true := by decide
    rw [advance_continued hle, next?_all_continued hblank]
    rfl

/-- A run of characters that ends before the end of the text, or at a newline, ends there. -/
theorem skipWhile_continued {test : Char → Bool} (h : test '\n' = false ∨ (c.skipWhile test).isDone = false) :
    (c.continued more).skipWhile test = (c.skipWhile test).continued more := by
  have hruns : ∀ t : Text, (test '\n' = false ∨ (t.dropWhile test).isEmpty = false) →
      (t ++ '\n' :: more).takeWhile test = t.takeWhile test ∧
        (t ++ '\n' :: more).dropWhile test = t.dropWhile test ++ '\n' :: more := by
    intro t ht
    induction t with
    | nil =>
      have hnewline : test '\n' = false := ht.resolve_right (by simp)
      simp [hnewline]
    | cons ch t ih =>
      by_cases hch : test ch
      · obtain ⟨htake, hdrop⟩ := ih (by simpa [hch] using ht)
        simp [hch, htake, hdrop]
      · simp [hch]
  obtain ⟨htake, hdrop⟩ := hruns c.rest h
  simp only [continued, skipWhile, htake, hdrop]

/-- If something visible comes after the line, the next line opens where it does. -/
theorem nextLine_continued (h : c.nextLine.isDone = false) : (c.continued more).nextLine = c.nextLine.continued more := by
  rw [nextLine, skipWhile_continued (Or.inl rfl), skipWhile_continued (Or.inr h), nextLine]

theorem indentLevel_continued (h : c.isDone = false) : (c.continued more).indentLevel = c.indentLevel := by
  rw [indentLevel, next?_continued h, indentLevel]
  rfl

/-! ## Extents -/

/-- Lines that end before the end of the text end there. -/
theorem skipLines_continued {keep : Nat → Bool} (h : c.skipLines keep = .ok d) (hd : d.isDone = false) :
    (c.continued more).skipLines keep = .ok (d.continued more) := by
  fun_induction skipLines keep c with
  | case1 c hdone =>
    obtain rfl : c = d := by simpa using h
    rw [hd] at hdone
    cases hdone
  | case2 c hdone fault hl => cases h
  | case3 c hdone level hl hk ih =>
    have hnext := isDone_eq_false_of_le (le_of_skipLines h) hd
    have hl' : (c.continued more).indentLevel = .ok level := (indentLevel_continued (by simpa using hdone)).trans hl
    rw [skipLines_of_keep hl' hk, nextLine_continued hnext]
    exact ih h
  | case4 c hdone level hl hk =>
    obtain rfl : c = d := by simpa using h
    have hl' : (c.continued more).indentLevel = .ok level := (indentLevel_continued hd).trans hl
    exact skipLines_of_not_keep hl' (by simpa using hk)

/-- So does a block. -/
theorem skipBlock_continued {keep : Nat → Nat → Bool} (h : c.skipBlock keep = .ok d) (hd : d.isDone = false) :
    (c.continued more).skipBlock keep = .ok (d.continued more) := by
  unfold skipBlock at h ⊢
  split at h
  · next hdone =>
    obtain rfl : c = d := by simpa using h
    rw [hd] at hdone
    cases hdone
  · next hdone =>
    rw [if_neg (by simp [isDone_continued]), indentLevel_continued (by simpa using hdone)]
    cases hl : c.indentLevel with
    | error fault => simp [hl, Except.bind] at h
    | ok level =>
      simp only [hl, Except.bind] at h ⊢
      have hnext := isDone_eq_false_of_le (le_of_skipLines h) hd
      rw [nextLine_continued hnext]
      exact skipLines_continued h hd

end Cursor

end Offside
