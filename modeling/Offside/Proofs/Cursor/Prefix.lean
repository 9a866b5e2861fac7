import Offside.Proofs.Layout.InStep

/-!
# Whole lines before a text

`Cursor.after` is the same place with more text before the text that it is in. Where that is whole lines, nothing that is
asked about a place can tell: the start of a text and a newline before it look the same to everything that looks back.
-/

namespace Offside

/-- Whole lines: nothing, or a text that ends with a newline. -/
def WholeLines (t : Text) : Prop :=
  t = [] ∨ t.getLast? = some '\n'

/-- Looking back on whole lines, a newline or nothing comes first. -/
theorem WholeLines.head?_reverse {t : Text} (h : WholeLines t) : t.reverse.head?.all (· == '\n') := by
  rcases h with rfl | hlast
  · rfl
  · simp [List.head?_reverse, hlast]

/-- A run of characters that satisfy a test does not go on where the next one does not. -/
theorem takeWhile_append_of_head? {test : Char → Bool} (s : Text) {t : Text} (h : t.head?.all (!test ·)) :
    (s ++ t).takeWhile test = s.takeWhile test ∧ (s ++ t).dropWhile test = s.dropWhile test ++ t := by
  induction s with
  | nil =>
    obtain ⟨htake, hdrop⟩ := Cursor.takeWhile_of_head? h
    exact ⟨by simpa using htake, by simpa using hdrop⟩
  | cons ch s ih =>
    rw [List.cons_append, List.takeWhile_cons, List.takeWhile_cons, List.dropWhile_cons, List.dropWhile_cons, ih.1, ih.2]
    split
    · exact ⟨rfl, rfl⟩
    · exact ⟨rfl, rfl⟩

/-- Going back to a newline does not lead into whole lines before. -/
theorem WholeLines.takeWhile_append {before : Text} (h : WholeLines before) (past : Text) :
    (past ++ before.reverse).takeWhile (· != '\n') = past.takeWhile (· != '\n') ∧
      (past ++ before.reverse).dropWhile (· != '\n') = past.dropWhile (· != '\n') ++ before.reverse := by
  refine takeWhile_append_of_head? past ?_
  have hhead := h.head?_reverse
  cases hb : before.reverse with
  | nil => rfl
  | cons ch s => simpa [hb, bne] using hhead

/-- Looking back on a text takes it for as many bytes. -/
theorem utf8Size_reverse (t : Text) : Text.utf8Size t.reverse = t.utf8Size := by
  induction t with
  | nil => rfl
  | cons ch t ih => simp [ih, Nat.add_comm]

namespace Cursor

/-- The same place, with a text put before the text that it is in. -/
def after (c : Cursor) (before : Text) : Cursor :=
  ⟨c.past ++ before.reverse, c.rest⟩

variable (c : Cursor) (before : Text)

/-- At the first column there are whole lines before the place. -/
theorem wholeLines_of_column {c : Cursor} (h : c.column = 1) : WholeLines c.past.reverse := by
  have hlead : c.lead = [] := by
    rw [← List.length_eq_zero_iff]
    simpa [column] using h
  cases hpast : c.past with
  | nil => exact Or.inl rfl
  | cons ch past =>
    right
    have hch : ch = '\n' := by
      by_contra hne
      simp [lead, hpast, hne] at hlead
    simp [hch]

@[simp] theorem text_after : (c.after before).text = before ++ c.text := by
  simp [after, text]

@[simp] theorem advance_after (n : Nat) : (c.after before).advance n = (c.advance n).after before := by
  simp [after, advance]

@[simp] theorem skipWhile_after (test : Char → Bool) :
    (c.after before).skipWhile test = (c.skipWhile test).after before := by
  simp [after, skipWhile]

/-- A place in a text is the place after what comes before it, in the text that comes after it. -/
theorem start_rest_after : (start c.rest).after c.past.reverse = c := by
  simp [start, after]

/-- As many bytes are put before the place as before its text. -/
theorem offset_after : (c.after before).offset = before.utf8Size + c.offset := by
  rw [offset, after, Text.utf8Size_append, utf8Size_reverse, Nat.add_comm]
  rfl

/-- Finding a place that many bytes further on takes that many characters more. -/
theorem charsIn?_append (s t : Text) (bytes : Nat) :
    Text.charsIn? (s.utf8Size + bytes) (s ++ t) = (t.charsIn? bytes).map (s.length + ·) := by
  induction s with
  | nil => simp
  | cons ch s ih =>
    have hpos : 0 < ch.utf8Size := ch.utf8Size_pos
    have hsize : Text.utf8Size (ch :: s) + bytes = ch.utf8Size + Text.utf8Size s + bytes := rfl
    obtain ⟨n, hn⟩ : ∃ n, Text.utf8Size (ch :: s) + bytes = n + 1 := ⟨Text.utf8Size (ch :: s) + bytes - 1, by omega⟩
    have hsub : n + 1 - ch.utf8Size = Text.utf8Size s + bytes := by omega
    have hle : ch.utf8Size ≤ n + 1 := by omega
    rw [hn, List.cons_append, Text.charsIn?, if_pos hle, hsub, ih, Option.map_map]
    congr 1
    funext k
    simp only [Function.comp_apply, List.length_cons]
    omega

/-- A place is found at its offset. -/
theorem seek?_offset : c.seek? c.offset = some c := by
  have hchars : Text.charsIn? c.offset c.text = some c.past.length := by
    have h := charsIn?_append c.past.reverse c.rest 0
    rwa [utf8Size_reverse, Nat.add_zero, Text.charsIn?, Option.map_some, List.length_reverse, Nat.add_zero] at h
  have hplace : (start c.text).advance c.past.length = c := by
    simp [start, advance, text]
  exact Option.map_eq_some_iff.mpr ⟨_, hchars, hplace⟩

/-- A place in a part of a text is a place in the text, further on by what comes before the part. -/
theorem exists_seek?_of_part {t rest : Text} (h : t = before ++ c.text ++ rest) :
    ∃ place, (start t).seek? (before.utf8Size + c.offset) = some place ∧ c.rest <+: place.rest := by
  let inPart : Cursor := ⟨c.past, c.rest ++ rest⟩
  have htext : (inPart.after before).text = t := by
    rw [text_after, h]
    simp [inPart, text]
  have hoffset : (inPart.after before).offset = before.utf8Size + c.offset := offset_after inPart before
  refine ⟨inPart.after before, ?_, List.prefix_append _ _⟩
  rw [← htext, ← hoffset]
  exact seek?_offset _

/-- The place at an offset of the text is, after the text before, the place that many bytes further on. -/
theorem seek?_after {t : Text} {offset : Nat} (h : (start t).seek? offset = some c) :
    (start (before ++ t)).seek? (before.utf8Size + offset) = some (c.after before) := by
  obtain ⟨n, hn, rfl⟩ := Option.map_eq_some_iff.mp h
  have hfind : Text.charsIn? (before.utf8Size + offset) (before ++ t) = some (before.length + n) := by
    have hn' : t.charsIn? offset = some n := hn
    rw [charsIn?_append, hn']
    rfl
  have hplace : (start (before ++ t)).advance (before.length + n) = ((start t).advance n).after before := by
    rw [← advance_advance]
    simp [start, advance, after]
  exact Option.map_eq_some_iff.mpr ⟨_, hfind, hplace⟩

theorem slice?_after (d : Cursor) : (c.after before).slice? (d.after before) = c.slice? d := by
  simp only [slice?, after, List.length_append]
  have hiff : c.past.length + before.reverse.length ≤ d.past.length + before.reverse.length ∧
      d.past.length + before.reverse.length ≤ c.past.length + before.reverse.length + c.rest.length ↔
      c.past.length ≤ d.past.length ∧ d.past.length ≤ c.past.length + c.rest.length := by omega
  have hlen : d.past.length + before.reverse.length - (c.past.length + before.reverse.length) =
      d.past.length - c.past.length := by omega
  rw [if_congr hiff rfl rfl, hlen]

variable {before} (hlines : WholeLines before)

include hlines

/-! ## Looking back -/

/-- The line begins where it did. -/
theorem lead_after : (c.after before).lead = c.lead :=
  (hlines.takeWhile_append c.past).1

theorem toLineStart_after : (c.after before).toLineStart = c.toLineStart.after before := by
  have hdrop := (hlines.takeWhile_append c.past).2
  rw [toLineStart, lead_after c hlines]
  simp only [after, hdrop, toLineStart]

theorem atLineStart_after : (c.after before).atLineStart = c.atLineStart := by
  rw [atLineStart, lead_after c hlines, atLineStart]

/-- A property of newlines holds of the character before a place just as it does without the lines before. -/
theorem prev?_after (test : Char → Bool) (htest : test '\n') :
    (c.after before).prev?.all test = c.prev?.all test := by
  have hhead := hlines.head?_reverse
  cases hpast : c.past with
  | cons ch past => simp [after, prev?, hpast]
  | nil =>
    cases hb : before.reverse with
    | nil => simp [after, prev?, hpast, hb]
    | cons ch s =>
      obtain rfl : ch = '\n' := by simpa [hb] using hhead
      simp [after, prev?, hpast, hb, htest]

theorem matchesWord_after (word : Text) : (c.after before).matchesWord word = c.matchesWord word := by
  have hprev := prev?_after c hlines isBlank (by decide)
  rw [matchesWord, hprev, advance_after]
  rfl

theorem matchesTerm_after (term : Text) : (c.after before).matchesTerm term = c.matchesTerm term := by
  have hprev : (c.after before).prev?.any isWordChar = c.prev?.any isWordChar := by
    have hall := prev?_after c hlines (!isWordChar ·) (by decide)
    cases h : (c.after before).prev? <;> cases h' : c.prev? <;> simp_all
  rw [matchesTerm, hprev, advance_after]
  rfl

/-! ## Scanners -/

omit hlines in
theorem firstPlace?_after {test : Cursor → Bool} (htest : ∀ c : Cursor, test (c.after before) = test c)
    (past rest : Text) : firstPlace? test (past ++ before.reverse) rest = firstPlace? test past rest := by
  induction rest generalizing past with
  | nil => rfl
  | cons ch rest ih =>
    have hhere := htest ⟨past, ch :: rest⟩
    have hmore := ih (ch :: past)
    simp only [after, List.cons_append] at hhere hmore
    rw [firstPlace?, hhere, hmore, firstPlace?]

theorem closingPlace?_after (opener closer past rest : Text) (depth : Nat) :
    closingPlace? opener closer (past ++ before.reverse) depth rest = closingPlace? opener closer past depth rest := by
  induction rest generalizing past depth with
  | nil => rfl
  | cons ch rest ih =>
    have hopener := matchesTerm_after ⟨past, ch :: rest⟩ hlines opener
    have hcloser := matchesTerm_after ⟨past, ch :: rest⟩ hlines closer
    have hmore := ih (ch :: past)
    simp only [after, List.cons_append] at hopener hcloser hmore
    simp only [closingPlace?, hopener, hcloser, hmore]

/-- Scanners reach as far as they do without the lines before. -/
theorem reach?_after (s : Scanner) : s.reach? (c.after before) = s.reach? c := by
  cases s with
  | keyword word => simp only [Scanner.reach?, matchesWord_after c hlines]
  | untilKeyword word =>
    exact firstPlace?_after (fun d => matchesWord_after d hlines word) c.past c.rest
  | untilBalanced opener closer => exact closingPlace?_after hlines opener closer c.past c.rest 0
  | lineStart => simp only [Scanner.reach?, atLineStart_after c hlines]
  | spaceOptional => rfl
  | spaceRequired => rfl
  | untilLiteral literal => rfl
  | untilChar ch => rfl
  | untilIncluding literal => rfl
  | untilLineEndsWith word => rfl
  | line => rfl
  | untilEnd => rfl
  | eof => rfl
  | token => rfl

theorem holds_after (test : Test) : test.holds (c.after before) = test.holds c := by
  cases test with
  | atLineStart => exact atLineStart_after c hlines
  | bareLine => rfl
  | ahead literal => rfl

/-! ## Layout -/

/-- The layout cannot tell whether there are lines before. -/
theorem keepsLayout_after : KeepsLayout fun c c' => c' = c.after before where
  isDone := by
    rintro c _ rfl
    rfl
  indentLevel := by
    rintro c _ rfl
    have hnext : (c.after before).next? = c.next? := rfl
    simp only [indentLevel, lead_after c hlines, hnext]
    split
    · split
      · exact .error rfl
      · exact .ok rfl
    · exact .error rfl
  toLineStart := by
    rintro c _ rfl
    exact toLineStart_after c hlines
  blankLine := by
    rintro c _ rfl
    rfl
  skipLine := by
    rintro c _ rfl
    exact skipWhile_after c before _
  skipBlanks := by
    rintro c _ rfl
    exact skipWhile_after c before _

end Cursor

end Offside
