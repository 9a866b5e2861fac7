import Mathlib.Data.List.TakeWhile
import Offside.Proofs.Parser.Movement

/-!
# Where lines open

The indentation may be asked for where a line opens: at its first visible character. `nextLine` leads to such a place or
to the end of the text, so the scan of lines is safe from there on: `exists_skipBlock` and `exists_restOfBlock` say that
extents never fault, and that they stop where a later line opens or at the end.
-/

namespace Offside

namespace Cursor

/-- The cursor is at the first visible character of its line. -/
def OpensLine (c : Cursor) : Prop :=
  ∃ level, c.indentLevel = .ok level

/-- The cursor is where a line opens, or at the end of the text: the indentation scan may begin here. -/
def Fresh (c : Cursor) : Prop :=
  c.isDone ∨ c.OpensLine

/-- A line opens at the later place, and all of that line is after the earlier place. -/
def Below (c d : Cursor) : Prop :=
  d.OpensLine ∧ d.lead.length + d.rest.length < c.rest.length

variable {c d e stop : Cursor}

theorem indentLevel_eq_ok_iff {level : Nat} :
    c.indentLevel = .ok level ↔ c.next?.any (!isBlank ·) ∧ c.lead.all isBlank ∧ level = c.lead.length := by
  unfold indentLevel
  split
  · next hv =>
    split
    · next found hf =>
      have hb : c.lead.all isBlank = false := by
        rw [List.all_eq_false]
        exact ⟨found, List.mem_of_find?_eq_some hf, by simpa using List.find?_some hf⟩
      simp [hb]
    · next hf =>
      have hb : c.lead.all isBlank = true := by
        rw [List.find?_eq_none] at hf
        simpa using hf
      simp [hb, hv, eq_comm]
  · next hv => simp [hv]

theorem opensLine_iff : c.OpensLine ↔ c.next?.any (!isBlank ·) ∧ c.lead.all isBlank := by
  simp [OpensLine, indentLevel_eq_ok_iff]

/-- A line that opens after a later place opens after an earlier one. -/
theorem Below.of_le (hle : c ≤ d) (h : d.Below e) : c.Below e :=
  ⟨h.1, Nat.lt_of_lt_of_le h.2 (length_rest_le_of_le hle)⟩

/-! ## Blanks and newlines in a list of characters -/

/-- The first character after the blanks is visible. -/
theorem next_dropWhile_isBlank {t : Text} (h : t.dropWhile isBlank ≠ []) :
    ((t.dropWhile isBlank).head?.any (!isBlank ·)) = true := by
  have hv := List.head_dropWhile_not isBlank h
  rw [List.head?_eq_some_head h]
  simpa using hv

/-- A part of a run of blanks is a run of blanks. -/
theorem all_isBlank_takeWhile {t : Text} {test : Char → Bool} (h : t.all isBlank) : (t.takeWhile test).all isBlank := by
  rw [List.all_eq_true] at h ⊢
  exact fun x hx => h x ((List.takeWhile_sublist test).subset hx)

theorem ne_newline_of_not_mem {t : Text} (h : '\n' ∉ t) : ∀ ch ∈ t, (ch != '\n') = true := by
  intro ch hch
  rw [bne_iff_ne]
  rintro rfl
  exact h hch

theorem ne_newline_of_not_isBlank {ch : Char} (h : isBlank ch = false) : (ch != '\n') = true := by
  rw [bne_iff_ne]
  rintro rfl
  exact absurd h (by decide)

/-- Counting back to a newline does not go beyond it. -/
theorem takeWhile_append_newline (s t : Text) :
    (s ++ '\n' :: t).takeWhile (· != '\n') = s.takeWhile (· != '\n') := by
  induction s with
  | nil => simp
  | cons ch s ih => simp only [List.cons_append, List.takeWhile_cons, ih]

/-- From within the run of characters that satisfy a test, passing them leads to the same place. -/
theorem skipWhile_advance {test : Char → Bool} {s t : Text} (h : c.rest.takeWhile test = s ++ t) :
    (c.advance s.length).skipWhile test = c.skipWhile test := by
  have hrest : c.rest = s ++ (t ++ c.rest.dropWhile test) := by
    rw [← List.append_assoc, ← h, List.takeWhile_append_dropWhile]
  have hall : ∀ ch ∈ t, test ch := by
    intro ch hch
    exact List.mem_takeWhile_imp (h ▸ List.mem_append_right s hch)
  have htake : c.rest.take s.length = s := by rw [hrest, List.take_left]
  have hdrop : c.rest.drop s.length = t ++ c.rest.dropWhile test := by
    have hcut := congrArg (List.drop s.length) hrest
    rwa [List.drop_left] at hcut
  have hstop : (c.rest.dropWhile test).takeWhile test = [] ∧
      (c.rest.dropWhile test).dropWhile test = c.rest.dropWhile test := by
    have hidem := skipWhile_skipWhile c test
    simp only [skipWhile, Cursor.mk.injEq] at hidem
    exact ⟨by simpa using hidem.1, hidem.2⟩
  simp only [skipWhile, advance, htake, hdrop, h, List.takeWhile_append_of_pos hall, List.dropWhile_append_of_pos hall,
    hstop.1, hstop.2, List.append_nil, List.reverse_append, List.append_assoc]

/-! ## Counting back -/

/-- Without a newline in it, all the text before the cursor is on its line. -/
theorem lead_eq_past (h : '\n' ∉ c.past) : c.lead = c.past := by
  rw [lead, List.takeWhile_eq_self_iff]
  exact ne_newline_of_not_mem h

/-- A line other than the first is shorter than all the text before the cursor. -/
theorem length_lead_lt (h : '\n' ∈ c.past) : c.lead.length < c.past.length := by
  have hne : c.past.dropWhile (· != '\n') ≠ [] := by
    intro hnil
    rw [List.dropWhile_eq_nil_iff] at hnil
    simpa using hnil '\n' h
  have hlen := congrArg List.length (List.takeWhile_append_dropWhile (p := (· != '\n')) (l := c.past))
  rw [List.length_append] at hlen
  have hpos := List.length_pos_iff.mpr hne
  unfold lead
  omega

/-- Nothing comes before the start of a line on it. -/
@[simp] theorem lead_toLineStart (c : Cursor) : c.toLineStart.lead = [] := by
  rw [lead, toLineStart, List.takeWhile_eq_nil_iff]
  intro hpos
  exact List.dropWhile_get_zero_not _ _ hpos

/-- The line of a cursor is what comes before it on the line and what is left of the line. -/
theorem restOfLine_toLineStart (c : Cursor) : c.toLineStart.restOfLine = c.lead.reverse ++ c.restOfLine := by
  have hall : ∀ ch ∈ c.lead.reverse, (ch != '\n') = true := by
    intro ch hch
    exact List.mem_takeWhile_imp (p := (· != '\n')) (List.mem_reverse.mp hch)
  rw [restOfLine, Text.firstLine, toLineStart, List.takeWhile_append_of_pos hall]
  rfl

/-- A text in which a line opens below a place has a newline. -/
theorem Below.newline_mem (hle : c ≤ d) (h : c.Below d) : '\n' ∈ d.text := by
  by_cases hmem : '\n' ∈ d.past
  · simp [text, hmem]
  · have hlead := lead_eq_past hmem
    have hlt := h.2
    have hlen : c.rest.length ≤ d.past.length + d.rest.length := by
      obtain ⟨passed, hrest, hpast⟩ := hle
      simp only [hrest, hpast, List.length_append, List.length_reverse]
      omega
    rw [hlead] at hlt
    omega

/-! ## From line to line -/

/-- The next line opens below, or there is none. -/
theorem nextLine_isDone_or_below (c : Cursor) : c.nextLine.isDone ∨ c.Below c.nextLine := by
  cases hr : c.rest.dropWhile (· != '\n') with
  | nil => exact Or.inl (by simp [nextLine, skipWhile, isDone, hr])
  | cons ch r =>
    have hch : ch = '\n' := by
      have h := List.head_dropWhile_not (· != '\n') (l := c.rest) (by simp [hr])
      simpa [hr] using h
    subst hch
    have hnl : isBlank '\n' = true := by decide
    have hrest : c.nextLine.rest = r.dropWhile isBlank := by simp [nextLine, skipWhile, hr, hnl]
    have hpast : c.nextLine.past = (r.takeWhile isBlank).reverse ++ '\n' :: (c.skipWhile (· != '\n')).past := by
      simp [nextLine, skipWhile, hr, hnl]
    by_cases hdone : c.nextLine.isDone
    · exact Or.inl hdone
    · right
      have hlead : c.nextLine.lead = (r.takeWhile isBlank).reverse.takeWhile (· != '\n') := by
        rw [lead, hpast, takeWhile_append_newline]
      have hlen : r.length < c.rest.length := by
        have h := (List.dropWhile_sublist (· != '\n') (l := c.rest)).length_le
        rw [hr, List.length_cons] at h
        omega
      refine ⟨opensLine_iff.mpr ⟨?_, ?_⟩, ?_⟩
      · rw [next?, hrest]
        exact next_dropWhile_isBlank (by simpa [isDone, hrest] using hdone)
      · rw [hlead]
        exact all_isBlank_takeWhile (by simp)
      · have h1 : c.nextLine.lead.length ≤ (r.takeWhile isBlank).length := by
          rw [hlead]
          simpa using (List.takeWhile_sublist (· != '\n') (l := (r.takeWhile isBlank).reverse)).length_le
        have h2 := congrArg List.length (List.takeWhile_append_dropWhile (p := isBlank) (l := r))
        rw [List.length_append] at h2
        rw [hrest]
        omega

/-- A text of one line has no next line. -/
theorem nextLine_isDone_of_oneLine (hnl : '\n' ∉ c.text) : c.nextLine.isDone := by
  refine (nextLine_isDone_or_below c).resolve_right fun hbelow => hnl ?_
  rw [← text_nextLine]
  exact hbelow.newline_mem (le_nextLine c)

theorem nextLine_fresh (c : Cursor) : c.nextLine.Fresh :=
  (nextLine_isDone_or_below c).imp id And.left

/-- On a line after a newline, only blanks come before the first visible character. -/
theorem atLineStart_nextLine (h : '\n' ∈ c.rest) : c.nextLine.atLineStart := by
  have hne : c.rest.dropWhile (· != '\n') ≠ [] := by
    intro hnil
    rw [List.dropWhile_eq_nil_iff] at hnil
    simpa using hnil '\n' h
  obtain ⟨ch, r, hr⟩ := List.exists_cons_of_ne_nil hne
  obtain rfl : ch = '\n' := by
    have hch := List.head_dropWhile_not (· != '\n') hne
    simpa [hr] using hch
  have hpast : c.nextLine.past = (r.takeWhile isBlank).reverse ++ '\n' :: (c.skipWhile (· != '\n')).past := by
    have hblank : isBlank '\n' = true := by decide
    simp [nextLine, skipWhile, hr, hblank]
  rw [atLineStart, lead, hpast, takeWhile_append_newline]
  exact all_isBlank_takeWhile (by simp)

/-- Nothing but a blank comes right before what only blanks come before on the line. -/
theorem prev?_of_atLineStart (h : c.atLineStart) : c.prev?.all isBlank := by
  cases hpast : c.past with
  | nil => simp [prev?, hpast]
  | cons ch past =>
    by_cases hch : ch = '\n'
    · subst hch
      simp only [prev?, hpast, List.head?_cons, Option.all_some]
      decide
    · have hlead : c.lead = ch :: past.takeWhile (· != '\n') := by simp [lead, hpast, hch]
      rw [atLineStart, hlead, List.all_cons, Bool.and_eq_true] at h
      simpa [prev?, hpast] using h.1

/-- Past the blanks after a line's start, or after part of its indentation, a line opens. -/
theorem skipWhile_isBlank_fresh (h : c.lead.all isBlank) : (c.skipWhile isBlank).Fresh := by
  by_cases hdone : (c.skipWhile isBlank).isDone
  · exact Or.inl hdone
  · refine Or.inr (opensLine_iff.mpr ⟨?_, ?_⟩)
    · exact next_dropWhile_isBlank (by simpa [isDone, skipWhile] using hdone)
    · rw [lead, skipWhile, List.takeWhile_append]
      split
      · rw [List.all_append, Bool.and_eq_true]
        exact ⟨by simp, h⟩
      · exact all_isBlank_takeWhile (by simp)

/-- The scan ends at a line whose indentation fails the test. -/
theorem skipLines_of_not_keep {keep : Nat → Bool} {level : Nat} (hl : c.indentLevel = .ok level)
    (hk : keep level = false) : c.skipLines keep = .ok c := by
  unfold skipLines
  split
  · rfl
  · split
    · next fault hfault => simp [hl] at hfault
    · next level' hok =>
      obtain rfl : level = level' := by simpa [hl] using hok
      simp [hk]

/-- The scan passes a line whose indentation passes the test. -/
theorem skipLines_of_keep {keep : Nat → Bool} {level : Nat} (hl : c.indentLevel = .ok level) (hk : keep level) :
    c.skipLines keep = c.nextLine.skipLines keep := by
  obtain ⟨ch, rest, hrest, -⟩ := next?_of_indentLevel_eq_ok hl
  rw [skipLines, if_neg (by simp [isDone, hrest])]
  split
  · next fault hfault => simp [hl] at hfault
  · next level' hok =>
    obtain rfl : level = level' := by simpa [hl] using hok
    rw [if_pos hk]

/-- From a place where the scan may begin it comes to an end, where a later line opens if it is not at the end. -/
theorem exists_skipLines (keep : Nat → Bool) (h : c.Fresh) :
    ∃ d, c.skipLines keep = .ok d ∧ (d = c ∨ d.isDone ∨ c.Below d) := by
  fun_induction skipLines keep c with
  | case1 c hdone => exact ⟨c, rfl, Or.inl rfl⟩
  | case2 c hdone fault hl =>
    obtain ⟨level, hok⟩ := h.resolve_left hdone
    simp [hl] at hok
  | case3 c hdone level hl hk ih =>
    obtain ⟨d, hd, hpos⟩ := ih (nextLine_fresh c)
    refine ⟨d, hd, Or.inr ?_⟩
    rcases hpos with rfl | hdone | hbelow
    · exact nextLine_isDone_or_below c
    · exact Or.inl hdone
    · exact Or.inr (hbelow.of_le (le_nextLine c))
  | case4 c hdone level hl hk => exact ⟨c, rfl, Or.inl rfl⟩

/-- The scan from the next line on comes to an end, where a later line opens if it is not at the end. -/
theorem exists_skipLines_nextLine (keep : Nat → Bool) (c : Cursor) :
    ∃ d, c.nextLine.skipLines keep = .ok d ∧ (d.isDone ∨ c.Below d) := by
  obtain ⟨d, hd, hpos⟩ := exists_skipLines keep (nextLine_fresh c)
  refine ⟨d, hd, ?_⟩
  rcases hpos with rfl | hdone | hbelow
  · exact nextLine_isDone_or_below c
  · exact Or.inl hdone
  · exact Or.inr (hbelow.of_le (le_nextLine c))

/-! ## Extents -/

/-- Where the scan may begin, lines that go with the cursor's are passed up to the end or to where a later line opens. -/
theorem exists_skipBlock (keep : Nat → Nat → Bool) (h : c.Fresh) :
    ∃ d, c.skipBlock keep = .ok d ∧ (d.isDone ∨ c.Below d) := by
  by_cases hdone : c.isDone
  · exact ⟨c, by simp [skipBlock, hdone], Or.inl hdone⟩
  · obtain ⟨level, hl⟩ := h.resolve_left hdone
    obtain ⟨d, hd, hpos⟩ := exists_skipLines_nextLine (keep level) c
    exact ⟨d, by simp [skipBlock, hdone, hl, Except.bind, hd], hpos⟩

/-- A line with something visible on it opens past the blanks that it starts with. -/
theorem opensLine_of_visible (h : ¬c.toLineStart.restOfLine.all isBlank) : (c.toLineStart.skipWhile isBlank).OpensLine := by
  refine (skipWhile_isBlank_fresh (c := c.toLineStart) (by simp)).resolve_left fun hdone => h ?_
  have hall : c.toLineStart.rest.all isBlank := by
    simpa [isDone, skipWhile, List.dropWhile_eq_nil_iff] using hdone
  exact all_isBlank_takeWhile hall

/-- The rest of a block can be found from anywhere; on a line with something visible it ends where a later line opens. -/
theorem exists_restOfBlock (c : Cursor) :
    ∃ d, c.extentStop .restOfBlock = .ok d ∧
      (c.toLineStart.restOfLine.all isBlank ∨ d.isDone ∨ c.Below d) := by
  by_cases hb : c.toLineStart.restOfLine.all isBlank
  · exact ⟨_, by simp only [extentStop]; rw [if_pos hb], Or.inl hb⟩
  · obtain ⟨level, hl⟩ := opensLine_of_visible hb
    obtain ⟨d, hd, hpos⟩ := exists_skipLines_nextLine (fun line => level < line) c
    refine ⟨d, ?_, Or.inr hpos⟩
    simp only [extentStop]
    rw [if_neg hb, hl]
    exact hd

/-! ## Where extents stop -/

theorem next?_of_isDone (hdone : c.isDone) : c.next?.all (!isBlank ·) := by
  have hrest : c.rest = [] := isDone_iff.mp hdone
  simp [next?, hrest]

theorem next?_of_skipLines {keep : Nat → Bool} (h : c.skipLines keep = .ok d) : d.next?.all (!isBlank ·) := by
  fun_induction skipLines keep c with
  | case1 c hdone =>
    obtain rfl : c = d := by simpa using h
    exact next?_of_isDone hdone
  | case2 c _ fault _ => cases h
  | case3 c _ level _ _ ih => exact ih h
  | case4 c _ level hl _ =>
    obtain rfl : c = d := by simpa using h
    have hnext := (indentLevel_eq_ok_iff.mp hl).1
    cases hc : c.next? <;> simp_all

/-- A block of lines stops before a visible character, or at the end. -/
theorem next?_of_skipBlock {keep : Nat → Nat → Bool} (h : c.skipBlock keep = .ok d) : d.next?.all (!isBlank ·) := by
  unfold skipBlock at h
  split at h
  · next hdone =>
    obtain rfl : c = d := by simpa using h
    exact next?_of_isDone hdone
  · cases hl : c.indentLevel with
    | error fault => simp [hl, Except.bind] at h
    | ok level =>
      simp only [hl, Except.bind] at h
      exact next?_of_skipLines h

/-- On a line with something visible, so does the rest of the cursor's block. -/
theorem next?_of_restOfBlock (hvisible : ¬c.toLineStart.restOfLine.all isBlank)
    (h : c.extentStop .restOfBlock = .ok d) : d.next?.all (!isBlank ·) := by
  simp only [extentStop, if_neg hvisible] at h
  cases hl : (c.toLineStart.skipWhile isBlank).indentLevel with
  | error fault => simp [hl, Except.bind] at h
  | ok level =>
    simp only [hl, Except.bind] at h
    exact next?_of_skipLines h

/-! ## Parts of the text -/

/-- A text that is cut out from a line on is the whole text only if that is all one line, and the line was the cursor's
own. -/
theorem text_of_block {t : Text} (hle : c ≤ d) (hpos : d.isDone ∨ c.Below d) (hstop : d ≤ stop)
    (ht : d.toLineStart.rest = t ++ stop.rest) :
    t <:+: c.text ∧ (t.length < c.text.length ∨ t = c.text ∧ '\n' ∉ c.text ∧ d.isDone) := by
  have htext := text_eq_of_le hle
  constructor
  · rw [← htext, ← text_toLineStart d]
    exact infix_text_of_rest_eq ht
  rcases hpos with hdone | hbelow
  · obtain rfl := eq_of_isDone_of_le hdone hstop
    have hrest : stop.rest = [] := isDone_iff.mp hdone
    have hlead : t = stop.lead.reverse := by simpa [toLineStart, hrest] using ht.symm
    have hpast : stop.past.reverse = c.text := by simpa [text, hrest] using htext
    by_cases hnl : '\n' ∈ c.text
    · left
      have hmem : '\n' ∈ stop.past := by simpa [← hpast] using hnl
      rw [← hpast, hlead, List.length_reverse, List.length_reverse]
      exact length_lead_lt hmem
    · right
      have hmem : '\n' ∉ stop.past := by simpa [← hpast] using hnl
      exact ⟨by rw [hlead, lead_eq_past hmem, hpast], hnl, hdone⟩
  · left
    have hlen := congrArg List.length ht
    have hlt := hbelow.2
    have hc : c.rest.length ≤ c.text.length := by simp [text]
    simp only [toLineStart, List.length_append, List.length_reverse] at hlen
    omega

end Cursor

end Offside
