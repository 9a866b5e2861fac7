import Mathlib.Order.Defs.PartialOrder
import Offside.Layout.Indent
import Offside.Scanner

/-!
# The order of places

A place is before another when some text lies between them and passing it leads from the one to the other. Every way to
move forward leads to a later place, and between two places in order there is a slice.
-/

namespace Offside

namespace Cursor

instance : LE Cursor :=
  ⟨fun c d => ∃ passed, c.rest = passed ++ d.rest ∧ d.past = passed.reverse ++ c.past⟩

instance : Preorder Cursor where
  le_refl c := ⟨[], rfl, rfl⟩
  le_trans := by
    rintro a b c ⟨s, hs, hs'⟩ ⟨t, ht, ht'⟩
    exact ⟨s ++ t, by rw [hs, ht, List.append_assoc], by rw [ht', hs', List.reverse_append, List.append_assoc]⟩

variable {c d e : Cursor}

/-- Places in order are places of one text. -/
theorem text_eq_of_le (h : c ≤ d) : d.text = c.text := by
  obtain ⟨passed, hrest, hpast⟩ := h
  simp [text, hrest, hpast]

/-- A later place has no more text after it. -/
theorem length_rest_le_of_le (h : c ≤ d) : d.rest.length ≤ c.rest.length := by
  obtain ⟨passed, hrest, _⟩ := h
  simp [hrest]

theorem offset_le_of_le (h : c ≤ d) : c.offset ≤ d.offset := by
  obtain ⟨passed, -, hpast⟩ := h
  rw [offset, offset, hpast, Text.utf8Size_append]
  omega

/-- A later place with as much text after it is the same place. -/
theorem eq_of_le_of_length_le (h : c ≤ d) (hlen : c.rest.length ≤ d.rest.length) : d = c := by
  obtain ⟨passed, hrest, hpast⟩ := h
  have hnil : passed = [] := by
    rw [hrest, List.length_append] at hlen
    exact List.eq_nil_of_length_eq_zero (by omega)
  subst hnil
  cases c
  cases d
  simp_all

theorem lt_iff : c < d ↔ c ≤ d ∧ d.rest.length < c.rest.length := by
  rw [lt_iff_le_not_ge]
  refine and_congr_right fun h => ?_
  constructor
  · intro hn
    apply Nat.lt_of_not_le
    intro hle
    exact hn (eq_of_le_of_length_le h hle ▸ le_refl c)
  · intro hlt hge
    have := length_rest_le_of_le hge
    omega

/-- A later place is another place, or the same. -/
theorem eq_or_lt_of_le (h : c ≤ d) : d = c ∨ c < d := by
  by_cases hlen : c.rest.length ≤ d.rest.length
  · exact Or.inl (eq_of_le_of_length_le h hlen)
  · exact Or.inr (lt_iff.mpr ⟨h, Nat.lt_of_not_le hlen⟩)

/-- Of two places that come after a third, one is before the other or no earlier. -/
theorem lt_or_le_of_le (hd : c ≤ d) (he : c ≤ e) : d < e ∨ e ≤ d := by
  obtain ⟨passed, hrest, hpast⟩ := hd
  obtain ⟨passed', hrest', hpast'⟩ := he
  by_cases hback : e ≤ d
  · exact Or.inr hback
  · left
    rcases List.append_eq_append_iff.mp (hrest.symm.trans hrest') with ⟨more, rfl, hmore⟩ | ⟨more, rfl, hmore⟩
    · exact lt_of_le_not_ge ⟨more, hmore, by simp [hpast, hpast']⟩ hback
    · exact absurd ⟨more, hmore, by simp [hpast, hpast']⟩ hback

theorem isDone_iff : c.isDone ↔ c.rest = [] := by
  simp [isDone]

/-- At the end of the text there is no later place. -/
theorem eq_of_isDone_of_le (hdone : c.isDone) (h : c ≤ d) : d = c := by
  apply eq_of_le_of_length_le h
  simp [isDone] at hdone
  simp [hdone]

theorem not_lt_of_isDone (hdone : c.isDone) : ¬c < d := by
  intro h
  rw [lt_iff] at h
  simp [isDone] at hdone
  simp [hdone] at h

/-! ## Moving forward -/

theorem le_advance (c : Cursor) (n : Nat) : c ≤ c.advance n :=
  ⟨c.rest.take n, by simp [advance], rfl⟩

theorem length_rest_advance (c : Cursor) (n : Nat) : (c.advance n).rest.length = c.rest.length - n := by
  simp [advance]

/-- Going some characters ahead of a place where there are any gets ahead. -/
theorem lt_advance {n : Nat} (hn : n ≠ 0) (hrest : c.rest ≠ []) : c < c.advance n := by
  have hpos : 0 < c.rest.length := List.length_pos_iff.mpr hrest
  refine lt_iff.mpr ⟨le_advance c n, ?_⟩
  rw [length_rest_advance]
  omega

/-- Passing what comes next leads past it. -/
theorem advance_length {past w rest : Text} :
    (Cursor.mk past (w ++ rest)).advance w.length = ⟨w.reverse ++ past, rest⟩ := by
  simp [advance]

/-- Going ahead twice is going ahead once, by both amounts. -/
theorem advance_advance (c : Cursor) (m n : Nat) : (c.advance m).advance n = c.advance (m + n) := by
  simp [advance, List.take_add, List.drop_drop]

theorem advance?_eq_some {n : Nat} (h : n ≤ c.rest.length) : c.advance? n = some (c.advance n) := by
  simp [advance?, h]

/-- Every place in a text is some characters ahead of the start. -/
theorem exists_eq_advance {t : Text} (h : c.text = t) : ∃ n ≤ t.length, c = (start t).advance n := by
  refine ⟨c.past.length, by simp [← h, text], ?_⟩
  obtain ⟨past, rest⟩ := c
  simp [← h, text, start, advance]

/-- The start of a text comes before every place in it. -/
theorem start_le (c : Cursor) : start c.text ≤ c :=
  ⟨c.past.reverse, rfl, by simp [start]⟩

/-- Of two places in one text, one is before the other or no earlier. -/
theorem lt_or_le_of_text_eq (htext : c.text = d.text) : c < d ∨ d ≤ c :=
  lt_or_le_of_le (htext ▸ start_le c) (start_le d)

/-- The end of a text is the only place at its end. -/
theorem eq_end_of_isDone {t : Text} (hle : start t ≤ c) (hdone : c.isDone) : c = (start t).advance t.length := by
  obtain ⟨passed, hrest, hpast⟩ := hle
  cases c with
  | mk past rest =>
    obtain rfl : rest = [] := isDone_iff.mp hdone
    simp [start] at hrest hpast
    simp [start, advance, hrest, hpast]

theorem le_skipWhile (c : Cursor) (test : Char → Bool) : c ≤ c.skipWhile test :=
  ⟨c.rest.takeWhile test, List.takeWhile_append_dropWhile.symm, rfl⟩

/-- Going past characters that satisfy a test is going as many characters ahead as there are such in a row. -/
theorem skipWhile_eq_advance (c : Cursor) (test : Char → Bool) :
    c.skipWhile test = c.advance (c.rest.takeWhile test).length := by
  obtain ⟨t, r, ht, hr, h⟩ : ∃ t r, c.rest.takeWhile test = t ∧ c.rest.dropWhile test = r ∧ c.rest = t ++ r :=
    ⟨_, _, rfl, rfl, List.takeWhile_append_dropWhile.symm⟩
  simp only [skipWhile, advance, ht, hr]
  rw [h, List.take_left, List.drop_left]

/-- The first character after those that satisfy a test does not. -/
theorem next?_skipWhile (c : Cursor) (test : Char → Bool) : (c.skipWhile test).next?.all (!test ·) := by
  have h := List.head?_dropWhile_not test c.rest
  rw [next?, skipWhile]
  cases hhead : (c.rest.dropWhile test).head? <;> simp_all

/-- A text whose first character does not satisfy a test has none in a row at its front that do. -/
theorem takeWhile_of_head? {t : Text} {test : Char → Bool} (h : t.head?.all (!test ·)) :
    t.takeWhile test = [] ∧ t.dropWhile test = t := by
  cases t with
  | nil => exact ⟨rfl, rfl⟩
  | cons ch t =>
    have hch : test ch = false := by simpa using h
    simp [hch]

theorem skipWhile_eq_self {test : Char → Bool} (h : c.next?.all (!test ·)) : c.skipWhile test = c := by
  obtain ⟨htake, hdrop⟩ := takeWhile_of_head? h
  rw [skipWhile, htake, hdrop]
  rfl

/-- Past the characters that satisfy a test there is no more of them to pass. -/
theorem skipWhile_skipWhile (c : Cursor) (test : Char → Bool) : (c.skipWhile test).skipWhile test = c.skipWhile test :=
  skipWhile_eq_self (next?_skipWhile c test)

/-- The characters that come first and satisfy a test are passed together with those after them. -/
theorem skipWhile_append_of_all (past : Text) {s rest : Text} {test : Char → Bool} (hs : ∀ ch ∈ s, test ch) :
    (Cursor.mk past (s ++ rest)).skipWhile test = (Cursor.mk (s.reverse ++ past) rest).skipWhile test := by
  simp only [skipWhile, List.takeWhile_append_of_pos hs, List.dropWhile_append_of_pos hs, List.reverse_append,
    List.append_assoc]

/-- Passing what satisfies a test leads to what does not. -/
theorem skipWhile_append (past : Text) {s rest : Text} {test : Char → Bool} (hs : ∀ ch ∈ s, test ch)
    (hrest : rest.head?.all (!test ·)) : (Cursor.mk past (s ++ rest)).skipWhile test = ⟨s.reverse ++ past, rest⟩ := by
  rw [skipWhile_append_of_all past hs, skipWhile_eq_self hrest]

theorem toLineStart_le (c : Cursor) : c.toLineStart ≤ c :=
  ⟨c.lead.reverse, rfl, by simp [toLineStart, lead]⟩

theorem le_nextLine (c : Cursor) : c ≤ c.nextLine :=
  le_trans (le_skipWhile c _) (le_skipWhile _ _)

/-! ## Slices -/

/-- Between two places in order there is a slice, and it is the text that is passed. -/
theorem slice?_of_le (h : c ≤ d) : ∃ t, c.slice? d = some t ∧ c.rest = t ++ d.rest := by
  obtain ⟨passed, hrest, hpast⟩ := h
  refine ⟨passed, ?_, hrest⟩
  have hle : c.past.length ≤ d.past.length ∧ d.past.length ≤ c.past.length + c.rest.length := by
    simp only [hrest, hpast, List.length_append, List.length_reverse]
    omega
  rw [slice?, if_pos hle]
  simp [hrest, hpast]

/-- The text over two stretches in a row is the text over the one and then over the other. -/
theorem slice?_trans {s t : Text} (hcd : c ≤ d) (hde : d ≤ e) (hs : c.slice? d = some s) (ht : d.slice? e = some t) :
    c.slice? e = some (s ++ t) := by
  obtain ⟨s', hs', hrest⟩ := slice?_of_le hcd
  obtain ⟨t', ht', hrest'⟩ := slice?_of_le hde
  obtain ⟨w, hw, hrest''⟩ := slice?_of_le (le_trans hcd hde)
  obtain rfl : s' = s := Option.some.inj (hs'.symm.trans hs)
  obtain rfl : t' = t := Option.some.inj (ht'.symm.trans ht)
  have hspan : w ++ e.rest = (s' ++ t') ++ e.rest := by rw [← hrest'', hrest, hrest', List.append_assoc]
  rw [hw, List.append_cancel_right hspan]

/-- What is passed between two places is part of the text. -/
theorem infix_text_of_rest_eq {t rest : Text} (h : c.rest = t ++ rest) : t <:+: c.text :=
  ⟨c.past.reverse, rest, by simp [text, h]⟩

end Cursor

/-! ## Scanners -/

namespace Text

/-- Where a literal is found, it stands. -/
theorem indexOf?_eq_some {t literal : Text} {n : Nat} (h : t.indexOf? literal = some n) :
    n + literal.length ≤ t.length ∧ literal <+: t.drop n := by
  induction t generalizing n with
  | nil =>
    simp only [indexOf?, Option.ite_none_right_eq_some, List.isEmpty_iff, Option.some.injEq] at h
    obtain ⟨rfl, rfl⟩ := h
    simp
  | cons ch t ih =>
    simp only [indexOf?] at h
    split at h
    · next hp =>
      obtain rfl : 0 = n := by simpa using h
      have hp' := List.isPrefixOf_iff_prefix.mp hp
      exact ⟨by simpa using hp'.length_le, by simpa using hp'⟩
    · obtain ⟨m, hm, rfl⟩ := Option.map_eq_some_iff.mp h
      obtain ⟨hlen, hpre⟩ := ih hm
      exact ⟨by simp; omega, by simpa using hpre⟩

/-- Before the first occurrence of a character there is none. -/
theorem not_mem_take_of_indexOf? {t : Text} {ch : Char} {n : Nat} (h : t.indexOf? [ch] = some n) : ch ∉ t.take n := by
  induction t generalizing n with
  | nil => simp
  | cons first t ih =>
    simp only [indexOf?] at h
    split at h
    · obtain rfl : 0 = n := by simpa using h
      simp
    · next hp =>
      obtain ⟨m, hm, rfl⟩ := Option.map_eq_some_iff.mp h
      have hne : ch ≠ first := by simpa [List.isPrefixOf] using hp
      simp [hne, ih hm]

/-- A character that is not in what comes before it is found there. -/
theorem indexOf?_char {s : Text} {ch : Char} (h : ch ∉ s) (t : Text) :
    (s ++ ch :: t).indexOf? [ch] = some s.length := by
  induction s with
  | nil => simp [indexOf?, List.isPrefixOf]
  | cons first s ih =>
    obtain ⟨hfirst, hmore⟩ : ch ≠ first ∧ ch ∉ s := by simpa using h
    rw [List.cons_append, indexOf?, ih hmore]
    simp [List.isPrefixOf, hfirst]

/-- A literal that is nowhere in a text is not found. -/
theorem indexOf?_eq_none_iff {t literal : Text} : t.indexOf? literal = none ↔ ¬literal <:+: t := by
  induction t with
  | nil => simp [indexOf?, List.isEmpty_iff]
  | cons ch t ih =>
    rw [indexOf?, List.infix_cons_iff, not_or, ← ih]
    split
    · next hp => simp [List.isPrefixOf_iff_prefix.mp hp]
    · next hp => simp [mt List.isPrefixOf_iff_prefix.mpr hp]

/-- A text that ends in a word is what comes before the word, and the word. -/
theorem stripSuffix?_eq_some {t word before : Text} (h : t.stripSuffix? word = some before) : t = before ++ word := by
  simp only [stripSuffix?, Option.ite_none_right_eq_some, List.isSuffixOf_iff_suffix, Option.some.injEq] at h
  obtain ⟨⟨s, rfl⟩, rfl⟩ := h
  simp

theorem stripSuffix?_append (before word : Text) : stripSuffix? (before ++ word) word = some before := by
  simp [stripSuffix?]

theorem trimEnd_isPrefix (t : Text) : t.trimEnd <+: t := by
  have h : t.reverse.dropWhile isBlank <:+ t.reverse := List.dropWhile_suffix isBlank
  simpa [trimEnd] using List.reverse_prefix.mpr h

/-- The blanks that a text ends with are all that trimming drops. -/
theorem exists_eq_trimEnd_append (t : Text) : ∃ blanks, t = t.trimEnd ++ blanks ∧ blanks.all isBlank := by
  refine ⟨(t.reverse.takeWhile isBlank).reverse, ?_, by simp⟩
  rw [trimEnd, ← List.reverse_append, List.takeWhile_append_dropWhile, List.reverse_reverse]

theorem trimEnd_append_of_all {s t : Text} (h : t.all isBlank) : (s ++ t).trimEnd = s.trimEnd := by
  have hall : ∀ ch ∈ t.reverse, isBlank ch := by simpa using h
  rw [trimEnd, trimEnd, List.reverse_append, List.dropWhile_append_of_pos hall]

/-- Without a blank at its end a text is not trimmed there. -/
theorem trimEnd_eq_self {t : Text} (h : t.getLast?.all (!isBlank ·)) : t.trimEnd = t := by
  rw [← List.head?_reverse] at h
  rw [trimEnd, (Cursor.takeWhile_of_head? h).2, List.reverse_reverse]

/-- A text of which trimming leaves nothing is blank. -/
theorem all_isBlank_of_trim_isEmpty {t : Text} (h : t.trim.isEmpty) : t.all isBlank := by
  have htrim : trimEnd (t.dropWhile isBlank) = [] := by simpa [trim] using h
  obtain ⟨blanks, heq, hblanks⟩ := exists_eq_trimEnd_append (t.dropWhile isBlank)
  rw [htrim, List.nil_append] at heq
  rw [← List.takeWhile_append_dropWhile (p := isBlank) (l := t), List.all_append, heq, hblanks]
  simp

/-- Trimming does not go beyond something visible. -/
theorem trimEnd_append {s t : Text} (h : t.trimEnd ≠ []) : (s ++ t).trimEnd = s ++ t.trimEnd := by
  have hne : t.reverse.dropWhile isBlank ≠ [] := by simpa [trimEnd] using h
  have hdrop : (t.reverse ++ s.reverse).dropWhile isBlank = t.reverse.dropWhile isBlank ++ s.reverse := by
    rw [List.dropWhile_append]
    simp [hne]
  rw [trimEnd, trimEnd, List.reverse_append, hdrop]
  simp

end Text

/-- A place found is before the end. -/
theorem firstPlace?_lt {test : Cursor → Bool} {past rest : Text} {n : Nat} (h : firstPlace? test past rest = some n) :
    n < rest.length := by
  induction rest generalizing past n with
  | nil => simp [firstPlace?] at h
  | cons ch rest ih =>
    simp only [firstPlace?] at h
    split at h
    · obtain rfl : 0 = n := by simpa using h
      simp
    · obtain ⟨m, hm, rfl⟩ := Option.map_eq_some_iff.mp h
      simpa using ih hm

/-- A closing place found is before the end. -/
theorem closingPlace?_lt {opener closer past rest : Text} {depth n : Nat}
    (h : closingPlace? opener closer past depth rest = some n) : n < rest.length := by
  induction rest generalizing past depth n with
  | nil => simp [closingPlace?] at h
  | cons ch rest ih =>
    simp only [closingPlace?] at h
    split at h
    · obtain ⟨m, hm, rfl⟩ := Option.map_eq_some_iff.mp h
      simpa using ih hm
    · split at h
      · cases depth with
        | zero =>
          obtain rfl : 0 = n := by simpa using h
          simp
        | succ depth =>
          obtain ⟨m, hm, rfl⟩ := Option.map_eq_some_iff.mp h
          simpa using ih hm
      · obtain ⟨m, hm, rfl⟩ := Option.map_eq_some_iff.mp h
        simpa using ih hm

theorem positive?_eq_some {m n : Nat} (h : positive? m = some n) : n = m ∧ 0 < n := by
  simp only [positive?, Option.ite_none_left_eq_some, Option.some.injEq] at h
  omega

namespace Scanner

/-- No scanner reaches past the end of the text. -/
theorem reach?_le {s : Scanner} {c : Cursor} {n : Nat} (h : s.reach? c = some n) : n ≤ c.rest.length := by
  have htake (test : Char → Bool) : (c.rest.takeWhile test).length ≤ c.rest.length :=
    (List.takeWhile_sublist test).length_le
  cases s with
  | spaceOptional =>
    obtain rfl : _ = n := by simpa [reach?] using h
    exact htake isBlank
  | spaceRequired =>
    obtain ⟨rfl, _⟩ := positive?_eq_some h
    exact htake isBlank
  | token =>
    obtain ⟨rfl, _⟩ := positive?_eq_some h
    exact htake isTokenChar
  | keyword word =>
    simp only [reach?, Option.ite_none_right_eq_some, Option.some.injEq, Cursor.matchesWord, Bool.and_eq_true,
      Cursor.peek, List.isPrefixOf_iff_prefix] at h
    obtain ⟨⟨⟨⟨_, hpre⟩, _⟩, _⟩, rfl⟩ := h
    exact hpre.length_le
  | untilLiteral literal =>
    have := (Text.indexOf?_eq_some h).1
    omega
  | untilChar ch =>
    have := (Text.indexOf?_eq_some h).1
    omega
  | untilIncluding literal =>
    obtain ⟨m, hm, rfl⟩ := Option.map_eq_some_iff.mp h
    exact (Text.indexOf?_eq_some hm).1
  | untilKeyword word => exact Nat.le_of_lt (firstPlace?_lt h)
  | untilBalanced opener closer => exact Nat.le_of_lt (closingPlace?_lt h)
  | untilLineEndsWith word =>
    simp only [reach?] at h
    split at h
    · next before hb =>
      simp only [Option.ite_none_right_eq_some, Option.some.injEq] at h
      obtain ⟨_, rfl⟩ := h
      have h1 := congrArg List.length (Text.stripSuffix?_eq_some hb)
      have h2 := (Text.trimEnd_isPrefix c.restOfLine).length_le
      have h3 := htake (· != '\n')
      simp only [List.length_append] at h1
      simp only [Cursor.restOfLine, Text.firstLine] at h1 h2
      omega
    · cases h
  | line =>
    obtain rfl : _ = n := by simpa [reach?] using h
    exact htake _
  | untilEnd =>
    obtain rfl : _ = n := by simpa [reach?] using h
    exact Nat.le_refl _
  | lineStart =>
    simp only [reach?, Option.ite_none_right_eq_some, Option.some.injEq] at h
    omega
  | eof =>
    simp only [reach?, Option.ite_none_right_eq_some, Option.some.injEq] at h
    omega

end Scanner

end Offside
