import Offside.Proofs.Layout.Lines

/-!
# Texts with carriage returns

Where lines end in a carriage return and a newline, every carriage return stands right before a newline. It is a blank, it
is no newline, and no word has one, so what is asked about a text has the same answer for the text without them:
`takeWhile_bare`, `trim_bare`, `isPrefixOf_bare` and `indexOf?_bare` say so.
-/

namespace Offside

namespace Text

/-- The text without its carriage returns. -/
def bare (t : Text) : Text :=
  t.filter (· != '\r')

/-- The text with a carriage return before every newline. -/
def withReturns (t : Text) : Text :=
  t.flatMap fun ch => if ch = '\n' then ['\r', '\n'] else [ch]

/-- Every carriage return stands right before a newline. -/
inductive Paired : Text → Prop where
  | nil : Paired []
  | ending {t : Text} (next : Paired ('\n' :: t)) : Paired ('\r' :: '\n' :: t)
  | other {ch : Char} {t : Text} (ne : ch ≠ '\r') (next : Paired t) : Paired (ch :: t)

/-- There is no carriage return, and no newline. -/
def Plain (t : Text) : Prop :=
  '\r' ∉ t ∧ '\n' ∉ t

instance (t : Text) : Decidable t.Plain :=
  inferInstanceAs (Decidable (_ ∧ _))

/-! ## Without carriage returns -/

@[simp] theorem bare_nil : bare [] = [] := rfl

@[simp] theorem bare_cons_return (t : Text) : bare ('\r' :: t) = bare t := rfl

theorem bare_cons {ch : Char} (h : ch ≠ '\r') (t : Text) : bare (ch :: t) = ch :: bare t := by
  simp [bare, h]

@[simp] theorem bare_append (s t : Text) : bare (s ++ t) = bare s ++ bare t :=
  List.filter_append s t

@[simp] theorem bare_reverse (t : Text) : bare t.reverse = (bare t).reverse := by
  rw [bare, List.filter_reverse, bare]

theorem bare_eq_self {t : Text} (h : '\r' ∉ t) : t.bare = t := by
  rw [bare, List.filter_eq_self]
  intro ch hch
  rw [bne_iff_ne]
  rintro rfl
  exact h hch

/-! ## Carriage returns before newlines -/

namespace Paired

variable {s t : Text} {ch : Char}

theorem tail (h : Paired (ch :: t)) : t.Paired := by
  cases h with
  | ending next => exact next
  | other _ next => exact next

theorem of_append_right (h : (s ++ t).Paired) : t.Paired := by
  induction s with
  | nil => exact h
  | cons ch s ih => exact ih h.tail

/-- A part in front is paired unless the cut is before a newline. -/
theorem of_append_left (h : (s ++ t).Paired) (ht : t.head? ≠ some '\n') : s.Paired := by
  induction s with
  | nil => exact .nil
  | cons ch s ih =>
    have hs := ih h.tail
    by_cases hch : ch = '\r'
    · subst hch
      cases s with
      | nil =>
        cases h with
        | ending => exact absurd rfl ht
        | other ne => exact absurd rfl ne
      | cons first s =>
        obtain rfl : first = '\n' := by
          cases h with
          | ending => rfl
          | other ne => exact absurd rfl ne
        exact .ending hs
    · exact .other hch hs

/-- After a carriage return there is a newline. -/
theorem head?_of_return (h : Paired ('\r' :: t)) : t.head? = some '\n' := by
  cases h with
  | ending => rfl
  | other ne => exact absurd rfl ne

theorem of_not_mem (h : '\r' ∉ t) : t.Paired := by
  induction t with
  | nil => exact .nil
  | cons ch t ih =>
    rw [List.mem_cons, not_or] at h
    exact .other (Ne.symm h.1) (ih h.2)

/-- The first character without the carriage returns: where one comes first, the newline after it. -/
theorem head?_bare (h : t.Paired) : t.bare.head? = t.head?.map fun ch => if ch = '\r' then '\n' else ch := by
  cases h with
  | nil => rfl
  | ending => rfl
  | other ne => simp [bare_cons ne, ne]

theorem bare_isEmpty (h : t.Paired) : t.bare.isEmpty = t.isEmpty := by
  cases h with
  | nil => rfl
  | ending => rfl
  | other ne => simp [bare_cons ne]

end Paired

/-- A text without carriage returns is what is left of the text with them. -/
theorem bare_withReturns {t : Text} (h : '\r' ∉ t) : t.withReturns.bare = t := by
  induction t with
  | nil => rfl
  | cons ch t ih =>
    rw [List.mem_cons, not_or] at h
    have hrest := ih h.2
    simp only [withReturns, List.flatMap_cons, bare_append] at hrest ⊢
    rw [hrest]
    split
    · next hch => subst hch; rfl
    · rw [bare_cons (Ne.symm h.1)]
      rfl

theorem paired_withReturns {t : Text} (h : '\r' ∉ t) : t.withReturns.Paired := by
  induction t with
  | nil => exact .nil
  | cons ch t ih =>
    rw [List.mem_cons, not_or] at h
    have hrest := ih h.2
    rw [withReturns, List.flatMap_cons]
    split
    · exact .ending (.other (by decide) hrest)
    · exact .other (Ne.symm h.1) hrest

/-! ## Runs of characters -/

section TakeWhile

variable (test : Char → Bool)

/-- Carriage returns that satisfy a test belong to a run of characters that do. -/
theorem takeWhile_bare (htest : test '\r') (t : Text) :
    t.bare.takeWhile test = bare (t.takeWhile test) ∧ t.bare.dropWhile test = bare (t.dropWhile test) := by
  induction t with
  | nil => exact ⟨rfl, rfl⟩
  | cons ch t ih =>
    by_cases hch : ch = '\r'
    · subst hch
      simpa [htest] using ih
    · by_cases hpass : test ch
      · simpa [bare_cons hch, hpass] using ih
      · simp [bare_cons hch, hpass]

/-- A run of characters that satisfy a test stops at the end of a line, whichever character ends it. -/
theorem takeWhile_bare_of_paired (hreturn : test '\r' = false) (hnewline : test '\n' = false) {t : Text}
    (h : t.Paired) :
    t.bare.takeWhile test = bare (t.takeWhile test) ∧ t.bare.dropWhile test = bare (t.dropWhile test) := by
  induction h with
  | nil => exact ⟨rfl, rfl⟩
  | ending => simp [bare_cons, hreturn, hnewline]
  | @other ch t hch _ ih =>
    by_cases hpass : test ch
    · simpa [bare_cons hch, hpass] using ih
    · simp [bare_cons hch, hpass]

end TakeWhile

theorem trimEnd_bare (t : Text) : t.bare.trimEnd = t.trimEnd.bare := by
  have hblank : isBlank '\r' := by decide
  rw [trimEnd, ← bare_reverse, (takeWhile_bare isBlank hblank _).2, ← bare_reverse, trimEnd]

theorem trim_bare (t : Text) : t.bare.trim = t.trim.bare := by
  have hblank : isBlank '\r' := by decide
  rw [trim, (takeWhile_bare isBlank hblank _).2, trimEnd_bare, trim]

/-- What is left of the first line has its carriage return at the end, where it is trimmed. -/
theorem return_not_mem_trimEnd {t : Text} (h : t.Paired) : '\r' ∉ t.firstLine.trimEnd := by
  induction h with
  | nil => simp [firstLine, trimEnd]
  | ending =>
    have hblank : isBlank '\r' := by decide
    simp [firstLine, trimEnd, hblank]
  | @other ch t hch _ ih =>
    intro hmem
    by_cases hline : ch = '\n'
    · simp [firstLine, hline, trimEnd] at hmem
    · have hcons : firstLine (ch :: t) = [ch] ++ t.firstLine := by simp [firstLine, hline]
      rw [hcons] at hmem
      by_cases hempty : t.firstLine.trimEnd = []
      · obtain ⟨blanks, heq, hblanks⟩ := exists_eq_trimEnd_append t.firstLine
        rw [heq, hempty, List.nil_append, trimEnd_append_of_all hblanks] at hmem
        have hsingle := (trimEnd_isPrefix [ch]).subset hmem
        exact hch (List.mem_singleton.mp hsingle).symm
      · rw [trimEnd_append hempty] at hmem
        rcases List.mem_append.mp hmem with hsingle | hmore
        · exact hch (List.mem_singleton.mp hsingle).symm
        · exact ih hmore

theorem mem_trimEnd_of_mem_trim {t : Text} {ch : Char} (h : ch ∈ t.trim) : ch ∈ t.trimEnd := by
  have hne : trimEnd (t.dropWhile isBlank) ≠ [] := List.ne_nil_of_mem h
  rw [← List.takeWhile_append_dropWhile (p := isBlank) (l := t), trimEnd_append hne]
  exact List.mem_append_right _ h

theorem firstLine_bare (t : Text) : t.bare.firstLine = t.firstLine.bare :=
  (takeWhile_bare (· != '\n') (by decide) t).1

theorem trimEnd_firstLine_bare {t : Text} (h : t.Paired) : t.bare.firstLine.trimEnd = t.firstLine.trimEnd := by
  rw [firstLine_bare, trimEnd_bare, bare_eq_self (return_not_mem_trimEnd h)]

theorem trim_firstLine_bare {t : Text} (h : t.Paired) : t.bare.firstLine.trim = t.firstLine.trim := by
  have hmem : '\r' ∉ t.firstLine.trim := fun hmem => return_not_mem_trimEnd h (mem_trimEnd_of_mem_trim hmem)
  rw [firstLine_bare, trim_bare, bare_eq_self hmem]

theorem all_isBlank_bare (t : Text) : t.bare.all isBlank = t.all isBlank := by
  induction t with
  | nil => rfl
  | cons ch t ih =>
    by_cases hch : ch = '\r'
    · subst hch
      rw [bare_cons_return, ih]
      rfl
    · rw [bare_cons hch, List.all_cons, ih, List.all_cons]

/-! ## Literals -/

theorem Plain.of_cons {ch : Char} {t : Text} (h : Plain (ch :: t)) : ch ≠ '\r' ∧ ch ≠ '\n' ∧ t.Plain := by
  obtain ⟨hreturn, hnewline⟩ := h
  rw [List.mem_cons, not_or] at hreturn hnewline
  exact ⟨Ne.symm hreturn.1, Ne.symm hnewline.1, hreturn.2, hnewline.2⟩

/-- A literal without line endings comes next just if it does without the carriage returns. -/
theorem isPrefixOf_bare {literal : Text} (hliteral : literal.Plain) {t : Text} (h : t.Paired) :
    literal.isPrefixOf t.bare = literal.isPrefixOf t := by
  induction h generalizing literal with
  | nil => rfl
  | ending =>
    cases literal with
    | nil => rfl
    | cons ch literal =>
      obtain ⟨hreturn, hnewline, -⟩ := hliteral.of_cons
      rw [bare_cons_return, bare_cons (by decide), List.isPrefixOf, List.isPrefixOf, beq_false_of_ne hreturn,
        beq_false_of_ne hnewline]
      rfl
  | @other first t hfirst _ ih =>
    cases literal with
    | nil => rfl
    | cons ch literal =>
      rw [bare_cons hfirst, List.isPrefixOf, List.isPrefixOf, ih hliteral.of_cons.2.2]

/-- A literal without line endings is found after as many characters, carriage returns apart. -/
theorem indexOf?_bare {literal : Text} (hliteral : literal.Plain) {t : Text} (h : t.Paired) :
    t.bare.indexOf? literal = (t.indexOf? literal).map fun n => (bare (t.take n)).length := by
  induction h with
  | nil =>
    rw [bare_nil, indexOf?]
    split <;> rfl
  | @ending t next ih =>
    cases literal with
    | nil => simp [indexOf?, bare_cons]
    | cons ch literal =>
      have hmiss : List.isPrefixOf (ch :: literal) ('\r' :: '\n' :: t) = false := by
        simp [List.isPrefixOf, hliteral.of_cons.1]
      rw [bare_cons_return, ih, indexOf?.eq_2 (ch :: literal) '\r', hmiss]
      simp [Function.comp_def]
  | @other ch t hch next ih =>
    have hnext := isPrefixOf_bare hliteral (.other hch next)
    rw [bare_cons hch] at hnext ⊢
    rw [indexOf?, hnext, ih, indexOf?]
    split
    · rfl
    · simp [Function.comp_def, bare_cons hch]

end Text

end Offside
