import Offside.Proofs.FinalNewline.Places

/-!
# How far scanners and extents reach

Scanners that look for something visible reach as far from corresponding places, and extents stop at corresponding places.
The four scanners that go over blanks or to the end have laws of their own where they are used.
-/

namespace Offside

open Cursor

/-! ## Scanners -/

namespace Cursor

theorem head?_newline_any {test : Char → Bool} (htest : test '\n' = false) (t : Text) :
    (t ++ ['\n']).head?.any test = t.head?.any test := by
  cases t <;> simp [htest]

/-- A word without newlines is set off at the end by the newline as it is by the end of the text. -/
theorem matchesWord_newline {word : Text} (hword : '\n' ∉ word) (past rest : Text) :
    (mk past (rest ++ ['\n'])).matchesWord word = (mk past rest).matchesWord word :=
  matchesWord_continued hword ⟨past, rest⟩ []

theorem matchesTerm_newline {term : Text} (hterm : '\n' ∉ term) (past rest : Text) :
    (mk past (rest ++ ['\n'])).matchesTerm term = (mk past rest).matchesTerm term := by
  have hpeek : (mk past (rest ++ ['\n'])).peek term = (mk past rest).peek term := Text.isPrefixOf_append_newline hterm rest []
  rw [matchesTerm, matchesTerm, hpeek]
  cases hnext : (mk past rest).peek term with
  | false => simp
  | true =>
    have hle : term.length ≤ rest.length := (List.isPrefixOf_iff_prefix.mp hnext).length_le
    have hother : isWordChar '\n' = false := by decide
    have hafter := head?_newline_any hother (rest.drop term.length)
    simp only [prev?, next?, advance, List.drop_append_of_le_length hle, hafter]

/-- At the end of the text comes no word. -/
theorem matchesWord_nil (past word : Text) : (mk past []).matchesWord word = false := by
  cases word <;> simp [matchesWord, peek]

theorem matchesWord_of_isDone {c : Cursor} {word : Text} (hdone : c.isDone) : c.matchesWord word = false := by
  obtain ⟨past, rest⟩ := c
  obtain rfl : rest = [] := isDone_iff.mp hdone
  exact matchesWord_nil past word

theorem matchesTerm_nil (past term : Text) : (mk past []).matchesTerm term = false := by
  cases term <;> simp [matchesTerm, peek]

/-- The newline makes no place where a test holds. -/
theorem firstPlace?_newline {test : Cursor → Bool} (htest : ∀ past rest, test ⟨past, rest ++ ['\n']⟩ = test ⟨past, rest⟩)
    (hnil : ∀ past, test ⟨past, []⟩ = false) (past rest : Text) :
    firstPlace? test past (rest ++ ['\n']) = firstPlace? test past rest := by
  induction rest generalizing past with
  | nil =>
    have hend := htest past []
    rw [List.nil_append] at hend ⊢
    simp [firstPlace?, hend, hnil]
  | cons ch rest ih =>
    have hhere := htest past (ch :: rest)
    rw [List.cons_append] at hhere ⊢
    rw [firstPlace?, hhere, ih, firstPlace?]

theorem closingPlace?_newline {opener closer : Text} (hopener : '\n' ∉ opener) (hcloser : '\n' ∉ closer)
    (past rest : Text) (depth : Nat) :
    closingPlace? opener closer past depth (rest ++ ['\n']) = closingPlace? opener closer past depth rest := by
  induction rest generalizing past depth with
  | nil =>
    have hopen := matchesTerm_newline hopener past []
    have hclose := matchesTerm_newline hcloser past []
    rw [List.nil_append, matchesTerm_nil] at hopen hclose
    simp [closingPlace?, hopen, hclose]
  | cons ch rest ih =>
    have hopen := matchesTerm_newline hopener past (ch :: rest)
    have hclose := matchesTerm_newline hcloser past (ch :: rest)
    rw [List.cons_append] at hopen hclose ⊢
    simp only [closingPlace?, hopen, hclose, ih]

end Cursor

namespace Scanner

/-- The scanner looks for something visible, and for no line ending. -/
def Heedless (s : Scanner) : Prop :=
  s.Plain ∧ s ∉ [spaceOptional, spaceRequired, untilEnd, eof]

instance (s : Scanner) : Decidable s.Heedless :=
  inferInstanceAs (Decidable (_ ∧ _))

variable {s : Scanner} (hs : s.Heedless) {c c' : Cursor}

include hs

/-- A scanner that looks for something visible reaches as far with the newline ahead as without it. -/
theorem reach?_ahead (h : Ahead c c') : s.reach? c' = s.reach? c := by
  obtain ⟨hplain, hother⟩ := hs
  obtain ⟨past, rest⟩ := c
  obtain ⟨past', rest'⟩ := c'
  obtain rfl : past' = past := h.past
  obtain rfl : rest' = rest ++ ['\n'] := h.rest
  have hline : (mk past' (rest ++ ['\n'])).restOfLine = (mk past' rest).restOfLine := h.restOfLine
  cases s with
  | spaceOptional => simp at hother
  | spaceRequired => simp at hother
  | untilEnd => simp at hother
  | eof => simp at hother
  | keyword word => rw [reach?, matchesWord_newline (hplain word List.mem_cons_self).2, reach?]
  | untilLiteral literal => exact Text.indexOf?_newline (hplain literal List.mem_cons_self).2 rest
  | untilKeyword word =>
    exact firstPlace?_newline (fun past rest => matchesWord_newline (hplain word List.mem_cons_self).2 past rest)
      (fun past => matchesWord_nil past word) past' rest
  | untilBalanced opener closer =>
    exact closingPlace?_newline (hplain opener (by simp [words])).2 (hplain closer (by simp [words])).2 past' rest 0
  | untilChar ch => exact Text.indexOf?_newline (hplain [ch] List.mem_cons_self).2 rest
  | untilIncluding literal =>
    rw [reach?, Text.indexOf?_newline (hplain literal List.mem_cons_self).2, reach?]
  | untilLineEndsWith word => simp only [reach?, hline]
  | line => rw [reach?, hline, reach?]
  | lineStart => rfl
  | token =>
    have hstop : List.head? ['\n'] |>.all (!isTokenChar ·) := by decide
    rw [reach?, (takeWhile_append_of_head? rest hstop).1, reach?]

/-- At the ends of the texts it reaches as far, unless it looks at what comes before. -/
theorem reach?_behind (hstart : s ≠ lineStart) (h : Behind c c') : s.reach? c' = s.reach? c := by
  obtain ⟨past, rest⟩ := c
  obtain ⟨past', rest'⟩ := c'
  obtain rfl : rest = [] := h.rest
  obtain rfl : rest' = [] := h.rest'
  cases s with
  | lineStart => exact absurd rfl hstart
  | keyword word => rw [reach?, matchesWord_nil, reach?, matchesWord_nil]
  | _ => rfl

end Scanner

/-! ## Extents -/

theorem checksInStep_refl {α : Type} (e : Except Fault α) : ChecksInStep (· = ·) e e := by
  cases e with
  | ok a => exact .ok rfl
  | error fault => exact .error rfl

/-- From line to line, the layout is the same. -/
theorem keepsLines_level : KeepsLines Level where
  isDone h := h.2
  indentLevel := by
    rintro c c' ⟨h | h, hdone⟩
    · have hnext := h.next? (hdone.trans h.isDone')
      have hsame : c'.indentLevel = c.indentLevel := by
        rw [indentLevel, hnext, h.lead, offset, h.past, indentLevel, offset]
      rw [hsame]
      exact checksInStep_refl _
    · have hno : ∀ d : Cursor, d.isDone → d.indentLevel = .error (.probedBlank d.offset) := by
        intro d hd
        have hrest : d.rest = [] := isDone_iff.mp hd
        simp [indentLevel, next?, hrest]
      rw [hno c h.isDone, hno c' h.isDone']
      exact .error rfl
  nextLine h := h.1.nextLine.level

variable {c c' : Cursor}

/-- Places that no blank comes next to have landed. -/
theorem landed_of_level {e e' : Except Fault Cursor} (h : ChecksInStep Level e e')
    (hnext : ∀ d', e' = .ok d' → d'.next?.all (!isBlank ·)) : ChecksInStep Landed e e' := by
  cases h with
  | ok hlevel => exact .ok ⟨hlevel.1, hnext _ rfl⟩
  | error kind => exact .error kind

/-- Blocks that begin at corresponding places, both at the end or neither, stop at corresponding places. -/
theorem skipBlock_landed (keep : Nat → Nat → Bool) (h : Level c c') :
    ChecksInStep Landed (c.skipBlock keep) (c'.skipBlock keep) :=
  landed_of_level (keepsLines_level.skipBlock keep h) fun _ hd => next?_of_skipBlock hd

/-- So do the rests of blocks, on a line with more than a comment. -/
theorem restOfBlock_landed (h : Ahead c c') (hvisible : Test.bareLine.holds c = false) :
    ChecksInStep Landed (c.extentStop .restOfBlock) (c'.extentStop .restOfBlock) := by
  have hline := h.toLineStart.restOfLine
  have hno : ¬c.toLineStart.restOfLine.all isBlank := visible_of_not_bareLine hvisible
  have hno' : ¬c'.toLineStart.restOfLine.all isBlank := by rwa [hline]
  refine landed_of_level ?_ fun d' hd' => next?_of_restOfBlock hno' hd'
  simp only [extentStop, if_neg hno, if_neg hno']
  have hopens := (Trailing.skipBlanks (Or.inl h.toLineStart)).level
  refine (keepsLines_level.indentLevel hopens).bind fun level level' hlevel => ?_
  subst hlevel
  exact keepsLines_level.skipLines _ (Trailing.nextLine (Or.inl h)).level

end Offside
