import Offside.Parser.Basic
import Offside.Proofs.Layout.InStep
import Offside.Proofs.LineEndings.Texts

/-!
# Places in texts with carriage returns

`Cursor.bare` is the same place in the text without its carriage returns; a place between a carriage return and its newline
is the place before the newline. Scanners that look for words without line endings reach as far, `Scanner.reach?_bare`, and
the layout is the same, `keepsLayout_bare`.
-/

namespace Offside

namespace Cursor

/-- The place in the text without its carriage returns. -/
def bare (c : Cursor) : Cursor :=
  ⟨c.past.bare, c.rest.bare⟩

variable {c d : Cursor}

@[simp] theorem bare_start (t : Text) : (start t).bare = start t.bare := rfl

/-- Places in order are in order without the carriage returns. -/
theorem bare_le_bare (h : c ≤ d) : c.bare ≤ d.bare := by
  obtain ⟨passed, hrest, hpast⟩ := h
  exact ⟨passed.bare, by simp [bare, hrest], by simp [bare, hpast]⟩

/-- Between two places in order is what is between them with the carriage returns, without these. -/
theorem slice?_bare (h : c ≤ d) : c.bare.slice? d.bare = (c.slice? d).map Text.bare := by
  obtain ⟨t, ht, hrest⟩ := slice?_of_le h
  obtain ⟨u, hu, hrest'⟩ := slice?_of_le (bare_le_bare h)
  have hbare : c.bare.rest = t.bare ++ d.bare.rest := by simp [bare, hrest]
  rw [ht, hu, List.append_cancel_right (hrest'.symm.trans hbare)]
  rfl

/-! ## Moving -/

theorem advance_bare (c : Cursor) (n : Nat) :
    (c.advance n).bare = c.bare.advance (Text.bare (c.rest.take n)).length := by
  have hsplit : c.rest.bare = Text.bare (c.rest.take n) ++ Text.bare (c.rest.drop n) := by
    rw [← Text.bare_append, List.take_append_drop]
  simp [bare, advance, hsplit]

/-- Going past a word that comes next, which has no carriage return, is going past it. -/
theorem advance_length_bare {word : Text} (hword : '\r' ∉ word) (h : c.peek word) :
    c.bare.advance word.length = (c.advance word.length).bare := by
  obtain ⟨rest, hrest⟩ := List.isPrefixOf_iff_prefix.mp h
  rw [advance_bare, ← hrest, List.take_left, Text.bare_eq_self hword]

theorem skipWhile_bare {test : Char → Bool} (htest : test '\r') (c : Cursor) :
    c.bare.skipWhile test = (c.skipWhile test).bare := by
  obtain ⟨htake, hdrop⟩ := Text.takeWhile_bare test htest c.rest
  simp [skipWhile, bare, htake, hdrop]

theorem lead_bare (c : Cursor) : c.bare.lead = c.lead.bare :=
  (Text.takeWhile_bare (· != '\n') (by decide) c.past).1

theorem toLineStart_bare (c : Cursor) : c.bare.toLineStart = c.toLineStart.bare := by
  have hdrop := (Text.takeWhile_bare (· != '\n') (by decide) c.past).2
  simp only [toLineStart, lead_bare]
  simp [bare, hdrop]

theorem atLineStart_bare (c : Cursor) : c.bare.atLineStart = c.atLineStart := by
  rw [atLineStart, lead_bare, Text.all_isBlank_bare, atLineStart]

theorem restOfLine_bare (c : Cursor) : c.bare.restOfLine = c.restOfLine.bare :=
  Text.firstLine_bare c.rest

theorem restOfLine_isPrefix (c : Cursor) : c.restOfLine <+: c.rest :=
  List.takeWhile_prefix (· != '\n')

/-! ## Looking around -/

section Paired

variable (h : c.text.Paired)

include h

theorem paired_rest : c.rest.Paired :=
  h.of_append_right

theorem isDone_bare : c.bare.isDone = c.isDone :=
  (paired_rest h).bare_isEmpty

/-- A test that does not tell a carriage return from a newline has one answer for the next character. -/
theorem all_next?_bare (test : Char → Bool) (htest : test '\r' = test '\n') :
    c.bare.next?.all test = c.next?.all test := by
  rw [next?, bare, (paired_rest h).head?_bare, next?]
  cases hrest : c.rest with
  | nil => rfl
  | cons ch rest =>
    by_cases hch : ch = '\r'
    · simp [hch, htest]
    · simp [hch]

theorem any_next?_bare (test : Char → Bool) (htest : test '\r' = test '\n') :
    c.bare.next?.any test = c.next?.any test := by
  have hall := all_next?_bare h (!test ·) (by simp [htest])
  cases hnext : c.next? <;> cases hnext' : c.bare.next? <;> simp_all

/-- Only before a newline may a carriage return come before. -/
theorem prev?_bare (hnext : c.next? ≠ some '\n') : c.bare.prev? = c.prev? := by
  rw [prev?, bare, prev?]
  cases hpast : c.past with
  | nil => rfl
  | cons ch past =>
    by_cases hch : ch = '\r'
    · subst hch
      have hpaired : Text.Paired (past.reverse ++ '\r' :: c.rest) := by simpa [text, hpast] using h
      exact absurd hpaired.of_append_right.head?_of_return hnext
    · rw [Text.bare_cons hch]
      rfl

/-- Only before a newline may there be a carriage return before on the line. -/
theorem return_not_mem_lead (hnext : c.next? ≠ some '\n') : '\r' ∉ c.lead := by
  intro hmem
  obtain ⟨after, before, hlead⟩ := List.append_of_mem hmem
  have hsplit : c.past = after ++ '\r' :: (before ++ c.past.dropWhile (· != '\n')) := by
    rw [← List.cons_append, ← List.append_assoc, ← hlead]
    exact List.takeWhile_append_dropWhile.symm
  have hpaired : Text.Paired ((before ++ c.past.dropWhile (· != '\n')).reverse ++ '\r' :: (after.reverse ++ c.rest)) := by
    rw [text, hsplit] at h
    simpa using h
  have hhead := hpaired.of_append_right.head?_of_return
  cases hafter : after.reverse with
  | nil => exact hnext (by simpa [hafter, next?] using hhead)
  | cons ch more =>
    obtain rfl : ch = '\n' := by simpa [hafter] using hhead
    have hline : '\n' ∈ c.lead := by
      rw [hlead]
      exact List.mem_append_left _ (List.mem_reverse.mp (hafter ▸ List.mem_cons_self))
    exact absurd (List.mem_takeWhile_imp hline) (by decide)

theorem peek_bare {word : Text} (hword : word.Plain) : c.bare.peek word = c.peek word :=
  Text.isPrefixOf_bare hword (paired_rest h)

omit h in
/-- A word without line endings does not come next at the end of a line. -/
theorem next?_of_peek {word : Text} (hword : word.Plain) (hne : word.isEmpty = false) (hpeek : c.peek word) :
    c.next? ≠ some '\n' := by
  obtain ⟨rest, hrest⟩ := List.isPrefixOf_iff_prefix.mp hpeek
  cases word with
  | nil => cases hne
  | cons ch word =>
    rw [next?, ← hrest]
    simpa using hword.of_cons.2.1

theorem matchesWord_bare {word : Text} (hword : word.Plain) : c.bare.matchesWord word = c.matchesWord word := by
  rw [matchesWord, matchesWord, peek_bare h hword]
  cases hne : word.isEmpty with
  | true => rfl
  | false =>
    cases hpeek : c.peek word with
    | false => rfl
    | true =>
      have hafter : (c.advance word.length).text.Paired := by simpa using h
      rw [prev?_bare h (next?_of_peek hword hne hpeek), advance_length_bare hword.1 hpeek,
        all_next?_bare hafter isBlank (by decide)]

theorem matchesTerm_bare {term : Text} (hterm : term.Plain) : c.bare.matchesTerm term = c.matchesTerm term := by
  rw [matchesTerm, matchesTerm, peek_bare h hterm]
  cases hne : term.isEmpty with
  | true => rfl
  | false =>
    cases hpeek : c.peek term with
    | false => rfl
    | true =>
      have hafter : (c.advance term.length).text.Paired := by simpa using h
      rw [prev?_bare h (next?_of_peek hterm hne hpeek), advance_length_bare hterm.1 hpeek,
        any_next?_bare hafter isWordChar (by decide)]

end Paired

end Cursor

/-! ## Scanners -/

/-- The words that a scanner looks for. -/
def Scanner.words : Scanner → List Text
  | keyword word | untilLiteral word | untilKeyword word | untilIncluding word | untilLineEndsWith word => [word]
  | untilBalanced opener closer => [opener, closer]
  | untilChar c => [[c]]
  | spaceOptional | spaceRequired | line | untilEnd | lineStart | eof | token => []

/-- The scanner looks for no line ending. -/
def Scanner.Plain (s : Scanner) : Prop :=
  ∀ word ∈ s.words, word.Plain

instance (s : Scanner) : Decidable s.Plain :=
  inferInstanceAs (Decidable (∀ word ∈ s.words, word.Plain))

namespace Cursor

/-- A place is found after as many characters, carriage returns apart, if it is never right before a carriage return. -/
theorem firstPlace?_bare {test : Cursor → Bool} (htest : ∀ c : Cursor, c.text.Paired → test c.bare = test c)
    (hreturn : ∀ past rest, test ⟨past, '\r' :: rest⟩ = false) {past rest : Text} (h : (mk past rest).text.Paired) :
    firstPlace? test past.bare rest.bare = (firstPlace? test past rest).map fun n => (Text.bare (rest.take n)).length := by
  induction rest generalizing past with
  | nil => rfl
  | cons ch rest ih =>
    have hnext : (mk (ch :: past) rest).text.Paired := by simpa [text] using h
    have hmore := ih hnext
    have hhere := htest ⟨past, ch :: rest⟩ h
    by_cases hch : ch = '\r'
    · subst hch
      rw [Text.bare_cons_return] at hmore ⊢
      rw [hmore, firstPlace?, hreturn]
      simp [Function.comp_def]
    · rw [bare, Text.bare_cons hch] at hhere
      rw [Text.bare_cons hch] at hmore ⊢
      rw [firstPlace?, hhere, hmore, firstPlace?]
      split
      · rfl
      · simp [Function.comp_def, Text.bare_cons hch]

/-- A word without line endings does not come next where a carriage return does. -/
theorem matchesWord_return {word : Text} (hword : word.Plain) (past rest : Text) :
    (mk past ('\r' :: rest)).matchesWord word = false := by
  cases word with
  | nil => rfl
  | cons ch word => simp [matchesWord, peek, List.isPrefixOf, beq_false_of_ne hword.of_cons.1]

theorem matchesTerm_return {term : Text} (hterm : term.Plain) (past rest : Text) :
    (mk past ('\r' :: rest)).matchesTerm term = false := by
  cases term with
  | nil => rfl
  | cons ch term => simp [matchesTerm, peek, List.isPrefixOf, beq_false_of_ne hterm.of_cons.1]

theorem closingPlace?_bare {opener closer : Text} (hopener : opener.Plain) (hcloser : closer.Plain) (depth : Nat)
    {past rest : Text} (h : (mk past rest).text.Paired) :
    closingPlace? opener closer past.bare depth rest.bare =
      (closingPlace? opener closer past depth rest).map fun n => (Text.bare (rest.take n)).length := by
  induction rest generalizing past depth with
  | nil => rfl
  | cons ch rest ih =>
    have hnext : (mk (ch :: past) rest).text.Paired := by simpa [text] using h
    by_cases hch : ch = '\r'
    · subst hch
      have hmore := ih depth hnext
      rw [Text.bare_cons_return] at hmore ⊢
      rw [hmore]
      simp [closingPlace?, matchesTerm_return hopener, matchesTerm_return hcloser, Function.comp_def]
    · have hmore := fun depth => ih depth hnext
      have hopen := matchesTerm_bare h hopener
      have hclose := matchesTerm_bare h hcloser
      rw [bare, Text.bare_cons hch] at hopen hclose
      rw [Text.bare_cons hch] at hmore ⊢
      simp only [closingPlace?, hopen, hclose, hmore]
      split
      · simp [Function.comp_def, Text.bare_cons hch]
      · split
        · cases depth with
          | zero => rfl
          | succ depth => simp [Function.comp_def, Text.bare_cons hch]
        · simp [Function.comp_def, Text.bare_cons hch]

end Cursor

namespace Scanner

/-- A run in front of a text is taken as it is. -/
theorem take_of_isPrefix {run t : Text} (h : run <+: t) : t.take run.length = run :=
  (List.prefix_iff_eq_take.mp h).symm

/-- A run in front of a text is empty just if it is without the carriage returns. -/
theorem positive?_bare {run t : Text} (hrun : run.Paired) (h : run <+: t) :
    positive? run.bare.length = (positive? run.length).map fun n => (Text.bare (t.take n)).length := by
  have hempty := hrun.bare_isEmpty
  unfold positive?
  split
  · next hzero =>
    have hnil : run = [] := by simpa [List.length_eq_zero_iff.mp hzero] using hempty
    simp [hnil]
  · next hzero =>
    have hne : run.length ≠ 0 := by
      intro hlen
      rw [List.length_eq_zero_iff.mp hlen] at hzero
      exact hzero rfl
    rw [if_neg hne, Option.map_some, take_of_isPrefix h]

/-- A scanner that looks for no line ending reaches over as many characters, carriage returns apart. -/
theorem reach?_bare {s : Scanner} (hs : s.Plain) {c : Cursor} (h : c.text.Paired) :
    s.reach? c.bare = (s.reach? c).map fun n => (Text.bare (c.rest.take n)).length := by
  have hrest := Cursor.paired_rest h
  have hblank : isBlank '\r' := by decide
  cases s with
  | spaceOptional =>
    have hblanks : c.rest.takeWhile isBlank <+: c.rest := List.takeWhile_prefix isBlank
    simp only [reach?, Option.map_some, take_of_isPrefix hblanks]
    rw [Cursor.bare, (Text.takeWhile_bare isBlank hblank c.rest).1]
  | spaceRequired =>
    have hrun : Text.Paired (c.rest.takeWhile isBlank) := by
      rw [← List.takeWhile_append_dropWhile (p := isBlank) (l := c.rest)] at hrest
      refine hrest.of_append_left fun hnewline => ?_
      have hstop := Cursor.next?_skipWhile c isBlank
      simp only [Cursor.next?, Cursor.skipWhile, hnewline] at hstop
      exact absurd hstop (by decide)
    have hblanks : c.rest.takeWhile isBlank <+: c.rest := List.takeWhile_prefix isBlank
    rw [reach?, reach?, Cursor.bare, (Text.takeWhile_bare isBlank hblank c.rest).1]
    exact positive?_bare hrun hblanks
  | keyword word =>
    have hword : word.Plain := hs word List.mem_cons_self
    simp only [reach?, Cursor.matchesWord_bare h hword]
    split
    · next hm =>
      simp only [Cursor.matchesWord, Bool.and_eq_true, Cursor.peek, List.isPrefixOf_iff_prefix] at hm
      rw [Option.map_some, take_of_isPrefix hm.1.1.2, Text.bare_eq_self hword.1]
    · rfl
  | untilLiteral literal => exact Text.indexOf?_bare (hs literal List.mem_cons_self) hrest
  | untilKeyword word =>
    have hword : word.Plain := hs word List.mem_cons_self
    exact Cursor.firstPlace?_bare (fun _ hd => Cursor.matchesWord_bare hd hword) (Cursor.matchesWord_return hword) h
  | untilBalanced opener closer =>
    exact Cursor.closingPlace?_bare (hs opener (by simp [words])) (hs closer (by simp [words])) 0 h
  | untilChar ch => exact Text.indexOf?_bare (hs [ch] List.mem_cons_self) hrest
  | untilIncluding literal =>
    have hliteral : literal.Plain := hs literal List.mem_cons_self
    rw [reach?, reach?, Cursor.bare, Text.indexOf?_bare hliteral hrest]
    cases hn : c.rest.indexOf? literal with
    | none => rfl
    | some n =>
      have hfound := (Text.indexOf?_eq_some hn).2
      simp [List.take_add, take_of_isPrefix hfound, Text.bare_eq_self hliteral.1]
  | untilLineEndsWith word =>
    have htrim : c.bare.restOfLine.trimEnd = c.restOfLine.trimEnd := Text.trimEnd_firstLine_bare hrest
    simp only [reach?, htrim]
    split
    · next before hbefore =>
      split
      · have hline : before <+: c.restOfLine.trimEnd := ⟨word, (Text.stripSuffix?_eq_some hbefore).symm⟩
        have hprefix : before <+: c.rest := hline.trans ((Text.trimEnd_isPrefix _).trans c.restOfLine_isPrefix)
        have hmem : '\r' ∉ before := fun hmem => Text.return_not_mem_trimEnd hrest (hline.subset hmem)
        rw [Option.map_some, take_of_isPrefix hprefix, Text.bare_eq_self hmem]
      · rfl
    · rfl
  | line =>
    simp only [reach?, Option.map_some, Cursor.restOfLine_bare, take_of_isPrefix c.restOfLine_isPrefix]
  | untilEnd => simp [reach?, Cursor.bare]
  | lineStart =>
    simp only [reach?, Cursor.atLineStart_bare]
    split <;> rfl
  | eof =>
    simp only [reach?, Cursor.isDone_bare h]
    split <;> rfl
  | token =>
    have hreturn : isTokenChar '\r' = false := by decide
    have hrun : Text.Paired (c.rest.takeWhile isTokenChar) := by
      refine .of_not_mem fun hmem => ?_
      rw [List.mem_takeWhile_imp hmem] at hreturn
      cases hreturn
    have htokens : c.rest.takeWhile isTokenChar <+: c.rest := List.takeWhile_prefix isTokenChar
    rw [reach?, reach?, Cursor.bare, (Text.takeWhile_bare_of_paired isTokenChar hreturn (by decide) hrest).1]
    exact positive?_bare hrun htokens

end Scanner

/-! ## Tests -/

/-- The test looks for no line ending. -/
def Test.Plain : Test → Prop
  | atLineStart | bareLine => True
  | ahead literal => literal.Plain

theorem Test.holds_bare {test : Test} (htest : test.Plain) {c : Cursor} (h : c.text.Paired) :
    test.holds c.bare = test.holds c := by
  cases test with
  | atLineStart => exact c.atLineStart_bare
  | bareLine =>
    have htrim : c.bare.restOfLine.trim = c.restOfLine.trim := Text.trim_firstLine_bare (Cursor.paired_rest h)
    rw [holds, htrim, holds]
  | ahead literal => exact Cursor.peek_bare h htest

/-! ## Layout -/

/-- The first place is the second without the carriage returns, each of which stands right before a newline. -/
structure IsBare (c c' : Cursor) : Prop where
  /-- The places. -/
  place : c = c'.bare
  /-- The text of the second. -/
  paired : c'.text.Paired

/-- The layout cannot tell whether there are carriage returns. -/
theorem keepsLayout_bare : KeepsLayout IsBare where
  isDone := by
    rintro _ c ⟨rfl, h⟩
    exact Cursor.isDone_bare h
  indentLevel := by
    rintro _ c ⟨rfl, h⟩
    have hnext := Cursor.any_next?_bare h (!isBlank ·) (by decide)
    unfold Cursor.indentLevel
    rw [hnext]
    split
    · next hvisible =>
      have hlead : c.bare.lead = c.lead := by
        rw [Cursor.lead_bare, Text.bare_eq_self (Cursor.return_not_mem_lead h ?_)]
        intro hnewline
        rw [hnewline] at hvisible
        exact absurd hvisible (by decide)
      rw [hlead]
      split
      · exact .error rfl
      · exact .ok rfl
    · exact .error rfl
  toLineStart := by
    rintro _ c ⟨rfl, h⟩
    exact ⟨c.toLineStart_bare, by simpa using h⟩
  blankLine := by
    rintro _ c ⟨rfl, h⟩
    rw [Cursor.restOfLine_bare, Text.all_isBlank_bare]
  skipLine := by
    rintro _ c ⟨rfl, h⟩
    exact ⟨Cursor.skipWhile_bare (by decide) c, by simpa using h⟩
  skipBlanks := by
    rintro _ c ⟨rfl, h⟩
    exact ⟨Cursor.skipWhile_bare (by decide) c, by simpa using h⟩

end Offside
