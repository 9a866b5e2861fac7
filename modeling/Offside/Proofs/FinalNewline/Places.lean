import Offside.Proofs.Cursor.Prefix
import Offside.Proofs.FinalNewline.Texts
import Offside.Proofs.Grammar.Expressions
import Offside.Proofs.LineEndings.Places

/-!
# Places in a text and in the text with a newline after it

A place corresponds to the same place with the newline still ahead, or, at the end of both texts, to the place behind it.
Blanks are what leads from the one to the other: `Trailing.skipBlanks`. Between two corresponding places is the same text,
`Trailing.slices`, but for the newline.

At the very end of a text a body that is still to come is looked for on the line of its own head, and with a newline it is
found to be empty. `Settled` says that the text does not end like that.
-/

namespace Offside

/-! ## Settled texts -/

/-- Only blanks are on the last line of the text. -/
def Text.EndsLine (t : Text) : Prop :=
  (Cursor.mk t.reverse []).atLineStart

instance (t : Text) : Decidable t.EndsLine :=
  inferInstanceAs (Decidable (_ = true))

/-- The text does not end where a body is still to come: what ends a line and asks for a body on the next is not on the
last line, unless the text goes on behind it. -/
structure Settled (t : Text) : Prop where
  /-- After the equals sign of a head that ends the text, there is a newline. -/
  equals : EndsIn "=".toList t → t.EndsLine
  /-- After an arrow that ends the text, there is a newline. -/
  arrow : "->".toList <:+ t.trimEnd → t.EndsLine
  /-- After a keyword that ends its line, there is a newline. -/
  words : ∀ word ∈ ["in", "else"], ∀ c : Cursor, c.text = t → c.matchesWord word.toList →
    Test.bareLine.holds (c.advance word.toList.length) → '\n' ∈ c.rest
  /-- A colon that ends the text belongs to the word before it. -/
  colon : ∀ before blank, t = before ++ [blank, ':'] → isBlank blank = false

/-- Whether a text is settled can be told from its end, and from the places in it. -/
theorem settled_iff {t : Text} :
    Settled t ↔ (EndsIn "=".toList t → t.EndsLine) ∧ ("->".toList <:+ t.trimEnd → t.EndsLine) ∧
      (∀ word ∈ ["in", "else"], ∀ n < t.length + 1, ((Cursor.start t).advance n).matchesWord word.toList →
        Test.bareLine.holds (((Cursor.start t).advance n).advance word.toList.length) →
        '\n' ∈ ((Cursor.start t).advance n).rest) ∧
      (t.getLast? = some ':' → t.dropLast.getLast?.all (!isBlank ·)) := by
  constructor
  · intro h
    refine ⟨h.equals, h.arrow, fun word hword n _ => h.words word hword _ (by simp), fun hlast => ?_⟩
    obtain ⟨before, rfl⟩ := List.getLast?_eq_some_iff.mp hlast
    rcases List.eq_nil_or_concat before with rfl | ⟨before, blank, rfl⟩
    · rfl
    · have hblank := h.colon before blank (by simp)
      simpa using hblank
  · rintro ⟨hequals, harrow, hwords, hcolon⟩
    refine ⟨hequals, harrow, fun word hword c hc => ?_, ?_⟩
    · obtain ⟨n, hn, rfl⟩ := Cursor.exists_eq_advance hc
      exact hwords word hword n (by omega)
    · rintro before blank rfl
      simpa using hcolon (by simp)

instance (t : Text) : Decidable (Settled t) :=
  decidable_of_iff' _ settled_iff

/-- A text of one line ends its line just if it is blank. -/
theorem Text.EndsLine.trimEnd_eq_nil {t : Text} (h : t.EndsLine) (hline : '\n' ∉ t) : t.trimEnd = [] := by
  have hlead : (Cursor.mk t.reverse []).lead = t.reverse := Cursor.lead_eq_past (by simpa using hline)
  have hblank : t.all isBlank := by simpa [EndsLine, Cursor.atLineStart, hlead] using h
  have htrim : Text.trimEnd ([] ++ t) = Text.trimEnd [] := trimEnd_append_of_all hblank
  exact htrim

namespace Settled

variable {t : Text} (h : Settled t) (hline : '\n' ∉ t)

include h hline

theorem not_equals : ¬EndsIn "=".toList t := by
  intro hends
  obtain ⟨before, htrim, -⟩ := id hends
  rw [(h.equals hends).trimEnd_eq_nil hline] at htrim
  simp at htrim

theorem not_arrow : ¬"->".toList <:+ t.trimEnd := by
  intro hends
  rw [(h.arrow hends).trimEnd_eq_nil hline] at hends
  simp at hends

end Settled

namespace Cursor

variable {c d : Cursor}

/-- The last line of what is left ends the last line of the text. -/
theorem endsLine_rest (h : c.text.EndsLine) : Text.EndsLine c.rest := by
  have hlead : (mk c.rest.reverse []).lead <+: (mk c.text.reverse []).lead := by
    simp only [lead, text, List.reverse_append, List.reverse_reverse]
    rw [List.takeWhile_append]
    split
    · next hall =>
      rw [(List.takeWhile_prefix _).eq_of_length hall]
      exact List.prefix_append _ _
    · exact List.prefix_rfl
  simp only [Text.EndsLine, atLineStart, List.all_eq_true] at h ⊢
  exact fun ch hch => h ch (hlead.subset hch)

theorem matchesWord_after_of_prev? {before word : Text} (h : d.matchesWord word)
    (hprev : d.past = [] → before.getLast?.all isBlank) : (d.after before).matchesWord word := by
  have hboth : d.prev?.all isBlank → (d.after before).prev?.all isBlank := by
    cases hpast : d.past with
    | nil => simpa [prev?, after, hpast] using hprev hpast
    | cons ch past => simp [prev?, after, hpast]
  simp only [matchesWord, Bool.and_eq_true, Bool.or_eq_true] at h ⊢
  obtain ⟨⟨⟨hne, hpeek⟩, hbefore⟩, hnext⟩ := h
  rw [advance_after]
  exact ⟨⟨⟨hne, hpeek⟩, hbefore.imp_right hboth⟩, hnext⟩

/-- What is left of a settled text is settled, if a blank or the start of the text sets it off. -/
theorem settled_rest (h : Settled c.text) (hstart : c.prev?.all isBlank ∨ c.next?.all isBlank) : Settled c.rest := by
  -- A word in front of what is left is set off by what comes before it.
  have hfirst : ∀ ch s, c.rest = ch :: s → isBlank ch = false → c.past.reverse.getLast?.all isBlank := by
    intro ch s hrest hch
    rw [List.getLast?_reverse]
    refine hstart.resolve_right ?_
    simp [next?, hrest, hch]
  constructor
  · rintro ⟨before, hbefore, hblank⟩
    have hne : c.rest.trimEnd ≠ [] := by simp [hbefore]
    refine endsLine_rest (h.equals ⟨c.past.reverse ++ before, ?_, ?_⟩)
    · rw [text, Text.trimEnd_append hne, hbefore, List.append_assoc]
    · cases before with
      | nil =>
        obtain ⟨blanks, hrest⟩ := Text.trimEnd_isPrefix c.rest
        rw [hbefore] at hrest
        rw [List.append_nil]
        exact hfirst '=' blanks hrest.symm (by decide)
      | cons ch before => rwa [List.getLast?_append_cons]
  · intro hends
    have hne : c.rest.trimEnd ≠ [] := by
      intro hnil
      simp [hnil] at hends
    refine endsLine_rest (h.arrow ?_)
    rw [text, Text.trimEnd_append hne]
    exact hends.trans (List.suffix_append _ _)
  · intro word hword d hd hm hbare
    have htext : (d.after c.past.reverse).text = c.text := by rw [text_after, hd, text]
    refine h.words word hword (d.after c.past.reverse) htext ?_ (by rwa [advance_after])
    refine matchesWord_after_of_prev? hm fun hpast => ?_
    obtain ⟨rest, hrest, hne⟩ := rest_of_matchesWord hm
    have hc : c.rest = word.toList ++ rest := by rw [← hd, text, hpast, hrest]; rfl
    simp only [List.mem_cons, List.not_mem_nil, or_false] at hword
    rcases hword with rfl | rfl
    · exact hfirst 'i' _ hc (by decide)
    · exact hfirst 'e' _ hc (by decide)
  · intro before blank hrest
    exact h.colon (c.past.reverse ++ before) blank (by rw [text, hrest, List.append_assoc])

/-- What is left from the start of a line on is settled. -/
theorem settled_toLineStart (h : Settled c.text) : Settled c.toLineStart.rest := by
  have hstart : c.toLineStart.prev?.all isBlank := prev?_of_atLineStart (by simp [atLineStart])
  exact settled_rest (by rwa [text_toLineStart]) (Or.inl hstart)

end Cursor

/-! ## Corresponding places -/

/-- The same place, in a settled text and in the text with a newline after it. -/
structure Ahead (c c' : Cursor) : Prop where
  /-- The same text comes before. -/
  past : c'.past = c.past
  /-- The newline comes at the end. -/
  rest : c'.rest = c.rest ++ ['\n']
  /-- The shorter text is settled. -/
  settled : Settled c.text

/-- The ends of a settled text and of the text with a newline after it. -/
structure Behind (c c' : Cursor) : Prop where
  /-- The shorter text ends. -/
  rest : c.rest = []
  /-- The longer text ends. -/
  rest' : c'.rest = []
  /-- The newline comes before. -/
  past : c'.past = '\n' :: c.past
  /-- The shorter text is settled. -/
  settled : Settled c.text

/-- The places correspond to each other, with the newline ahead or behind. -/
def Trailing (c c' : Cursor) : Prop :=
  Ahead c c' ∨ Behind c c'

/-- The places correspond to each other, and both are at the end or neither is. -/
def Level (c c' : Cursor) : Prop :=
  Trailing c c' ∧ c.isDone = c'.isDone

/-- The places correspond to each other, and no blank comes next. -/
def Landed (c c' : Cursor) : Prop :=
  Trailing c c' ∧ c'.next?.all (!isBlank ·)

/-- The places correspond to each other and no blank comes next; at the end, only blanks come before on the line. -/
def Clear (c c' : Cursor) : Prop :=
  Landed c c' ∧ (c.isDone → c.atLineStart)

/-- Nothing is said about where two runs stop. -/
def Anywhere (_ _ : Cursor) : Prop :=
  True

variable {c c' d d' : Cursor}

namespace Ahead

theorem start {t : Text} (h : Settled t) : Ahead (.start t) (.start (t ++ ['\n'])) :=
  ⟨rfl, rfl, h⟩

variable (h : Ahead c c')

include h

theorem isDone' : c'.isDone = false := by
  simp [Cursor.isDone, h.rest]

theorem lead : c'.lead = c.lead := by
  rw [Cursor.lead, h.past, Cursor.lead]

theorem restOfLine : c'.restOfLine = c.restOfLine := by
  rw [Cursor.restOfLine, h.rest, Text.firstLine_newline, Cursor.restOfLine]

theorem next? (hdone : c.isDone = false) : c'.next? = c.next? := by
  cases hrest : c.rest with
  | nil => simp [Cursor.isDone, hrest] at hdone
  | cons ch rest => simp [Cursor.next?, h.rest, hrest]

theorem advance {n : Nat} (hn : n ≤ c.rest.length) : Ahead (c.advance n) (c'.advance n) where
  past := by simp only [Cursor.advance, h.past, h.rest, List.take_append_of_le_length hn]
  rest := by simp only [Cursor.advance, h.rest, List.drop_append_of_le_length hn]
  settled := by simpa using h.settled

theorem toLineStart : Ahead c.toLineStart c'.toLineStart where
  past := by simp only [Cursor.toLineStart, h.past]
  rest := by simp only [Cursor.toLineStart, h.lead, h.rest, List.append_assoc]
  settled := by simpa using h.settled

/-- The line ends before the newline at the end of the text. -/
theorem skipLine : Ahead (c.skipWhile (· != '\n')) (c'.skipWhile (· != '\n')) := by
  have hstop : List.head? ['\n'] |>.all fun ch => !(ch != '\n') := by decide
  obtain ⟨htake, hdrop⟩ := takeWhile_append_of_head? c.rest hstop
  exact ⟨by simp only [Cursor.skipWhile, h.past, h.rest, htake], by simp only [Cursor.skipWhile, h.rest, hdrop],
    by simpa using h.settled⟩

/-- Blanks lead to the next visible character, or past the newline. -/
theorem skipBlanks : Trailing (c.skipWhile isBlank) (c'.skipWhile isBlank) := by
  have hsettled : Settled (c.skipWhile isBlank).text := by simpa using h.settled
  by_cases hblank : c.rest.all isBlank
  · have hall : ∀ ch ∈ c.rest, isBlank ch := List.all_eq_true.mp hblank
    have hall' : ∀ ch ∈ c'.rest, isBlank ch := by
      rw [h.rest, List.forall_mem_append, List.forall_mem_singleton]
      exact ⟨hall, by decide⟩
    right
    refine ⟨?_, ?_, ?_, hsettled⟩
    · exact List.dropWhile_eq_nil_iff.mpr hall
    · exact List.dropWhile_eq_nil_iff.mpr hall'
    · rw [Cursor.skipWhile, Cursor.skipWhile, List.takeWhile_eq_self_iff.mpr hall,
        List.takeWhile_eq_self_iff.mpr hall', h.rest, h.past, List.reverse_append]
      rfl
  · left
    have hne : c.rest.dropWhile isBlank ≠ [] := fun hnil =>
      hblank (List.all_eq_true.mpr (List.dropWhile_eq_nil_iff.mp hnil))
    have hlength : (c.rest.takeWhile isBlank).length ≠ c.rest.length := by
      intro heq
      have hself := (List.takeWhile_prefix (l := c.rest) isBlank).eq_of_length heq
      exact hblank (List.all_eq_true.mpr (List.takeWhile_eq_self_iff.mp hself))
    refine ⟨?_, ?_, hsettled⟩
    · rw [Cursor.skipWhile, h.rest, h.past, List.takeWhile_append, if_neg hlength, Cursor.skipWhile]
    · rw [Cursor.skipWhile, h.rest, List.dropWhile_append, if_neg (by simpa using hne), Cursor.skipWhile]

end Ahead

namespace Behind

variable (h : Behind c c')

include h

theorem isDone : c.isDone := by
  simp [Cursor.isDone, h.rest]

theorem isDone' : c'.isDone := by
  simp [Cursor.isDone, h.rest']

theorem skipWhile (test : Char → Bool) : c.skipWhile test = c ∧ c'.skipWhile test = c' :=
  ⟨Cursor.skipWhile_eq_self (by simp [Cursor.next?, h.rest]), Cursor.skipWhile_eq_self (by simp [Cursor.next?, h.rest'])⟩

/-- Nothing is on the line after the newline. -/
theorem toLineStart' : c'.toLineStart = c' := by
  have hlead : c'.lead = [] := by simp [Cursor.lead, h.past]
  have hpast : c'.past.dropWhile (· != '\n') = c'.past := by simp [h.past]
  rw [Cursor.toLineStart, hlead, hpast]
  rfl

end Behind

namespace Trailing

theorem settled (h : Trailing c c') : Settled c.text :=
  h.elim Ahead.settled Behind.settled

/-- Both places are at the end or neither is, or the newline is all that is left. -/
theorem level_or (h : Trailing c c') : Level c c' ∨ Ahead c c' ∧ c.isDone := by
  rcases h with h | h
  · cases hdone : c.isDone with
    | true => exact Or.inr ⟨h, rfl⟩
    | false => exact Or.inl ⟨Or.inl h, hdone.trans h.isDone'.symm⟩
  · exact Or.inl ⟨Or.inr h, h.isDone.trans h.isDone'.symm⟩

/-- Past the blanks, both places land. -/
theorem skipBlanks (h : Trailing c c') : Landed (c.skipWhile isBlank) (c'.skipWhile isBlank) := by
  refine ⟨?_, Cursor.next?_skipWhile c' isBlank⟩
  rcases h with h | h
  · exact h.skipBlanks
  · obtain ⟨hc, hc'⟩ := h.skipWhile isBlank
    rw [hc, hc']
    exact Or.inr h

theorem nextLine (h : Trailing c c') : Landed c.nextLine c'.nextLine := by
  refine skipBlanks ?_
  rcases h with h | h
  · exact Or.inl h.skipLine
  · obtain ⟨hc, hc'⟩ := h.skipWhile (· != '\n')
    rw [hc, hc']
    exact Or.inr h

/-- Between two corresponding places is the same text, unless the second run has passed the newline since. -/
theorem slices (hc : Trailing c c') (hd : Trailing d d') (hle : c ≤ d) (hle' : c' ≤ d') :
    ∃ t t', c.slice? d = some t ∧ c'.slice? d' = some t' ∧
      (t' = t ∨ Ahead c c' ∧ Behind d d' ∧ t = c.rest ∧ t' = t ++ ['\n']) := by
  obtain ⟨t, ht, hrest⟩ := Cursor.slice?_of_le hle
  obtain ⟨t', ht', hrest'⟩ := Cursor.slice?_of_le hle'
  refine ⟨t, t', ht, ht', ?_⟩
  rcases hc with hc | hc
  · rcases hd with hd | hd
    · left
      rw [hc.rest, hrest, hd.rest, ← List.append_assoc] at hrest'
      exact (List.append_cancel_right (List.append_cancel_right hrest')).symm
    · right
      rw [hd.rest, List.append_nil] at hrest
      rw [hd.rest', List.append_nil, hc.rest, hrest] at hrest'
      exact ⟨hc, hd, hrest.symm, hrest'.symm⟩
  · left
    rw [hc.rest] at hrest
    rw [hc.rest'] at hrest'
    rw [(List.append_eq_nil_iff.mp hrest.symm).1, (List.append_eq_nil_iff.mp hrest'.symm).1]

end Trailing

/-- Where no blank comes next, both places are at the end or neither is. -/
theorem Landed.level (h : Landed c c') : Level c c' := by
  refine ⟨h.1, ?_⟩
  rcases h.1 with hc | hc
  · cases hrest : c.rest with
    | nil =>
      have hnext := h.2
      simp only [Cursor.next?, hc.rest, hrest, List.nil_append, List.head?_cons, Option.all_some] at hnext
      exact absurd hnext (by decide)
    | cons ch rest => rw [hc.isDone', Cursor.isDone, hrest, List.isEmpty_cons]
  · rw [hc.isDone, hc.isDone']

end Offside
