import Offside.Proofs.LineEndings.Parsers
import Offside.Proofs.Margins.Texts

/-!
# Places in texts with a margin

A spot is a place in an inset, so it is a place in the plain text and one in the full text. Two places are at a spot if
nothing was inserted right after it, and around a spot otherwise. At a spot scanners that look for something visible go
equally far, `Scanner.abreast_of_visible`. So do extents, `Inset.Even.extentStop`: each line that has something visible is
indented further by as much, except for the first line of a text that was cut out in the middle of a line, where nothing
was inserted. There an extent has to reach the end of the text.
-/

namespace Offside

/-! ## Spots -/

/-- A place in an inset. -/
structure Spot where
  /-- What is before the place, the nearest character first. -/
  past : Inset
  /-- What is after the place. -/
  rest : Inset

namespace Spot

/-- The whole inset that the spot is in. -/
def text (s : Spot) : Inset :=
  s.past.reverse ++ s.rest

/-- The place in the plain text. -/
def plain (s : Spot) : Cursor :=
  ⟨s.past.plain, s.rest.plain⟩

/-- The place in the full text. -/
def full (s : Spot) : Cursor :=
  ⟨s.past.full, s.rest.full⟩

/-- What comes before the spot on its line, the nearest character first. -/
def lead (s : Spot) : Inset :=
  s.past.takeWhile (·.1 != '\n')

/-- The spot some characters further. -/
def advance (s : Spot) (n : Nat) : Spot :=
  ⟨(s.rest.take n).reverse ++ s.past, s.rest.drop n⟩

/-- The spot past the characters that satisfy a test. -/
def skipWhile (s : Spot) (test : Char → Bool) : Spot :=
  ⟨(s.rest.takeWhile (test ·.1)).reverse ++ s.past, s.rest.dropWhile (test ·.1)⟩

/-- The start of the spot's line. -/
def toLineStart (s : Spot) : Spot :=
  ⟨s.past.dropWhile (·.1 != '\n'), s.lead.reverse ++ s.rest⟩

@[simp] theorem text_advance (s : Spot) (n : Nat) : (s.advance n).text = s.text := by
  simp [advance, text]

@[simp] theorem text_skipWhile (s : Spot) (test : Char → Bool) : (s.skipWhile test).text = s.text := by
  simp [skipWhile, text]

@[simp] theorem text_toLineStart (s : Spot) : s.toLineStart.text = s.text := by
  have h := congrArg List.reverse (List.takeWhile_append_dropWhile (p := (·.1 != '\n')) (l := s.past))
  simp only [List.reverse_append] at h
  simp only [toLineStart, lead, text, ← List.append_assoc, h]

theorem full_advance (s : Spot) (n : Nat) : (s.advance n).full = s.full.advance n := by
  simp [advance, full, Cursor.advance]

theorem plain_advance (s : Spot) (n : Nat) :
    (s.advance n).plain = s.plain.advance (Inset.plain (s.rest.take n)).length := by
  have hsplit : s.rest.plain = Inset.plain (s.rest.take n) ++ Inset.plain (s.rest.drop n) := by
    rw [← Inset.plain_append, List.take_append_drop]
  simp [advance, plain, Cursor.advance, hsplit]

theorem full_skipWhile (s : Spot) (test : Char → Bool) : (s.skipWhile test).full = s.full.skipWhile test := by
  obtain ⟨htake, hdrop⟩ := Inset.takeWhile_full test s.rest
  simp [skipWhile, full, Cursor.skipWhile, htake, hdrop]

theorem full_toLineStart (s : Spot) : s.toLineStart.full = s.full.toLineStart := by
  obtain ⟨htake, hdrop⟩ := Inset.takeWhile_full (· != '\n') s.past
  simp [toLineStart, lead, full, Cursor.toLineStart, Cursor.lead, htake, hdrop]

section Fronted

variable {s : Spot} (h : s.text.Fronted)

include h

theorem fronted_rest : s.rest.Fronted :=
  h.of_part (List.suffix_append _ _).isInfix

theorem spaced_past : s.past.Spaced := fun x hx =>
  h.spaced x (List.mem_append_left _ (List.mem_reverse.mpr hx))

theorem plain_skipWhile {test : Char → Bool} (htest : test ' ') :
    (s.skipWhile test).plain = s.plain.skipWhile test := by
  obtain ⟨htake, hdrop⟩ := (fronted_rest h).spaced.takeWhile_plain htest
  simp [skipWhile, plain, Cursor.skipWhile, htake, hdrop]

theorem plain_lead : s.plain.lead = s.lead.plain :=
  ((spaced_past h).takeWhile_plain (by decide)).1

theorem plain_toLineStart : s.toLineStart.plain = s.plain.toLineStart := by
  obtain ⟨htake, hdrop⟩ := @Inset.Spaced.takeWhile_plain s.past (spaced_past h) (· != '\n') (by decide)
  simp [toLineStart, lead, plain, Cursor.toLineStart, Cursor.lead, htake, hdrop]

omit h in
theorem full_lead (s : Spot) : s.full.lead = s.lead.full :=
  (Inset.takeWhile_full (· != '\n') s.past).1

/-- What comes right before both places satisfies a test that spaces and newlines satisfy, or comes before neither. -/
theorem prev?_all {test : Char → Bool} (hspace : test ' ') (hnewline : test '\n') :
    s.plain.prev?.all test = s.full.prev?.all test := by
  have hspaced := spaced_past h
  have hfront : s.past.IsChain fun x y => x.2 = true → y.2 = true ∨ y.1 = '\n' := by
    have hpast := List.isChain_reverse.mp h.front.left_of_append
    exact hpast
  unfold Cursor.prev? plain full
  simp only
  generalize s.past = past at hspaced hfront
  induction past with
  | nil => rfl
  | cons x past ih =>
    obtain ⟨ch, _ | _⟩ := x
    · rfl
    · obtain rfl : ch = ' ' := hspaced _ List.mem_cons_self rfl
      rw [Inset.plain_cons_true, ih hspaced.tail hfront.tail, Inset.full_cons, List.head?_cons, Option.all_some, hspace]
      cases past with
      | nil => rfl
      | cons y past =>
        rw [Inset.full_cons, List.head?_cons, Option.all_some]
        rcases (List.isChain_cons_cons.mp hfront).1 rfl with hy | hy
        · rw [hspaced _ (List.mem_cons_of_mem _ List.mem_cons_self) hy, hspace]
        · rw [hy, hnewline]

end Fronted

end Spot

/-! ## Corresponding places -/

namespace Inset

/-- The places are the same in the plain and in the full text. -/
def Around (m : Inset) (c c' : Cursor) : Prop :=
  ∃ s : Spot, s.text = m ∧ c = s.plain ∧ c' = s.full

/-- The places are the same in the plain and in the full text, and nothing was inserted right after them. -/
def At (m : Inset) (c c' : Cursor) : Prop :=
  ∃ s : Spot, s.text = m ∧ s.rest.Genuine ∧ c = s.plain ∧ c' = s.full

theorem At.around {m : Inset} {c c' : Cursor} (h : m.At c c') : m.Around c c' := by
  obtain ⟨s, hs, -, hc, hc'⟩ := h
  exact ⟨s, hs, hc, hc'⟩

theorem around_start (m : Inset) : m.Around (.start m.plain) (.start m.full) :=
  ⟨⟨[], m⟩, rfl, rfl, rfl⟩

theorem at_start {m : Inset} (hm : m.Genuine) : m.At (.start m.plain) (.start m.full) :=
  ⟨⟨[], m⟩, rfl, hm, rfl, rfl⟩

end Inset

section Places

variable {m : Inset} (hm : m.Fronted) {c c' : Cursor}

namespace Inset

include hm

theorem Around.skipWhile {test : Char → Bool} (htest : test ' ') (h : m.Around c c') :
    m.Around (c.skipWhile test) (c'.skipWhile test) := by
  obtain ⟨s, rfl, rfl, rfl⟩ := h
  exact ⟨s.skipWhile test, by simp, (Spot.plain_skipWhile hm htest).symm, (s.full_skipWhile test).symm⟩

/-- Something other than a space was not inserted. -/
theorem Around.at (h : m.Around c c') (hnext : c'.next? ≠ some ' ') : m.At c c' := by
  obtain ⟨s, rfl, rfl, rfl⟩ := h
  exact ⟨s, rfl, (Spot.fronted_rest hm).genuine hnext, rfl, rfl⟩

theorem Around.skipBlanks (h : m.Around c c') : m.At (c.skipWhile isBlank) (c'.skipWhile isBlank) := by
  refine (h.skipWhile hm (by decide)).at hm fun hnext => ?_
  have hstop := Cursor.next?_skipWhile c' isBlank
  rw [hnext] at hstop
  exact absurd hstop (by decide)

theorem Around.skipLine (h : m.Around c c') : m.At (c.skipWhile (· != '\n')) (c'.skipWhile (· != '\n')) := by
  refine (h.skipWhile hm (by decide)).at hm fun hnext => ?_
  have hstop := Cursor.next?_skipWhile c' (· != '\n')
  rw [hnext] at hstop
  exact absurd hstop (by decide)

theorem Around.nextLine (h : m.Around c c') : m.At c.nextLine c'.nextLine :=
  (h.skipLine hm).around.skipBlanks hm

theorem Around.toLineStart (h : m.Around c c') : m.Around c.toLineStart c'.toLineStart := by
  obtain ⟨s, rfl, rfl, rfl⟩ := h
  exact ⟨s.toLineStart, by simp, (Spot.plain_toLineStart hm).symm, s.full_toLineStart.symm⟩

theorem Around.onFirstLine (h : m.Around c c') : '\n' ∈ c.past ↔ '\n' ∈ c'.past := by
  obtain ⟨s, rfl, rfl, rfl⟩ := h
  exact (Spot.spaced_past hm).mem_plain_iff (by decide)

theorem Around.atLineStart (h : m.Around c c') : c.atLineStart = c'.atLineStart := by
  obtain ⟨s, rfl, rfl, rfl⟩ := h
  have hlead : s.lead.Spaced := fun x hx => Spot.spaced_past hm x ((List.takeWhile_sublist _).subset hx)
  rw [Cursor.atLineStart, Spot.plain_lead hm, hlead.all_plain (by decide), Cursor.atLineStart, Spot.full_lead]

theorem Around.blankLine (h : m.Around c c') : c.restOfLine.all isBlank = c'.restOfLine.all isBlank := by
  obtain ⟨s, rfl, rfl, rfl⟩ := h
  have hrest := (Spot.fronted_rest hm).spaced
  have hline : Spaced (s.rest.takeWhile (·.1 != '\n')) := fun x hx => hrest x ((List.takeWhile_sublist _).subset hx)
  have hplain : s.plain.restOfLine = plain (s.rest.takeWhile (·.1 != '\n')) := (hrest.takeWhile_plain (by decide)).1
  have hfull : s.full.restOfLine = full (s.rest.takeWhile (·.1 != '\n')) := (takeWhile_full (· != '\n') s.rest).1
  rw [hplain, hfull, hline.all_plain (by decide)]

omit hm in
theorem At.next? (h : m.At c c') : c.next? = c'.next? := by
  obtain ⟨s, -, hs, rfl, rfl⟩ := h
  exact hs.head?

omit hm in
theorem At.isDone (h : m.At c c') : c.isDone = c'.isDone := by
  have hnext := h.next?
  unfold Cursor.next? at hnext
  unfold Cursor.isDone
  cases hc : c.rest <;> cases hc' : c'.rest <;> simp_all

theorem At.restOfLine (h : m.At c c') : c.restOfLine = c'.restOfLine := by
  obtain ⟨s, rfl, hs, rfl, rfl⟩ := h
  exact hs.takeWhile (Spot.fronted_rest hm) (by decide)

/-- What is left of the line is the same in both texts, so places equally far ahead on it are the same. -/
theorem At.advance_line (h : m.At c c') {n : Nat} (hn : n ≤ c'.rest.length) (hline : '\n' ∉ c'.rest.take n) :
    m.At (c.advance n) (c'.advance n) := by
  obtain ⟨s, rfl, hs, rfl, rfl⟩ := h
  obtain ⟨htake, hdrop⟩ := hs.take (Spot.fronted_rest hm) hline
  have hlen : (Inset.plain (s.rest.take n)).length = n := by
    rw [htake, List.length_take]
    exact Nat.min_eq_left hn
  refine ⟨s.advance n, by simp, hdrop, ?_, (s.full_advance n).symm⟩
  rw [s.plain_advance, hlen]

omit hm in
/-- Places after as many characters, inserted ones apart, are the same. -/
theorem At.advance {s : Spot} {n : Nat} (h : Genuine (s.rest.drop n)) :
    s.text.At (s.plain.advance (plain (s.rest.take n)).length) (s.full.advance n) :=
  ⟨s.advance n, by simp, h, (s.plain_advance n).symm, (s.full_advance n).symm⟩

theorem At.peek (h : m.At c c') {word : Text} (hword : '\n' ∉ word) : c.peek word = c'.peek word := by
  obtain ⟨s, rfl, hs, rfl, rfl⟩ := h
  exact hs.isPrefixOf (Spot.fronted_rest hm) hword

theorem At.prev?_all (h : m.At c c') {test : Char → Bool} (hspace : test ' ') (hnewline : test '\n') :
    c.prev?.all test = c'.prev?.all test := by
  obtain ⟨s, rfl, -, rfl, rfl⟩ := h
  exact Spot.prev?_all hm hspace hnewline

/-- After a word, if it comes next, the places are the same again. -/
theorem At.advance_word (h : m.At c c') {word : Text} (hword : '\n' ∉ word) (hpeek : c'.peek word) :
    m.At (c.advance word.length) (c'.advance word.length) := by
  have hnext := List.isPrefixOf_iff_prefix.mp hpeek
  refine h.advance_line hm hnext.length_le ?_
  rwa [Scanner.take_of_isPrefix hnext]

theorem At.matchesWord (h : m.At c c') {word : Text} (hword : '\n' ∉ word) :
    c.matchesWord word = c'.matchesWord word := by
  rw [Cursor.matchesWord, Cursor.matchesWord, h.peek hm hword, h.prev?_all hm (by decide) (by decide)]
  cases hpeek : c'.peek word with
  | false => simp
  | true => rw [(h.advance_word hm hword hpeek).next?]

theorem At.matchesTerm (h : m.At c c') {term : Text} (hterm : '\n' ∉ term) :
    c.matchesTerm term = c'.matchesTerm term := by
  have hprev : c.prev?.any isWordChar = c'.prev?.any isWordChar := by
    have hall : c.prev?.all (!isWordChar ·) = c'.prev?.all (!isWordChar ·) :=
      h.prev?_all hm (by decide) (by decide)
    cases hc : c.prev? <;> cases hc' : c'.prev? <;> simp_all
  rw [Cursor.matchesTerm, Cursor.matchesTerm, h.peek hm hterm, hprev]
  cases hpeek : c'.peek term with
  | false => simp
  | true => rw [(h.advance_word hm hterm hpeek).next?]

end Inset

/-! ## Scanners -/

/-- Nothing visible comes next where a space does. -/
theorem Cursor.matchesWord_space {word : Text} (hword : word.Visible) (past rest : Text) :
    (mk past (' ' :: rest)).matchesWord word = false := by
  simp [matchesWord, peek, hword.isPrefixOf_space]

theorem Cursor.matchesTerm_space {term : Text} (hterm : term.Visible) (past rest : Text) :
    (mk past (' ' :: rest)).matchesTerm term = false := by
  simp [matchesTerm, peek, hterm.isPrefixOf_space]

namespace Spot

/-- A place is found after as many characters, inserted ones apart, if it is never right before a space. -/
theorem firstPlace?_plain {test : Cursor → Bool}
    (htest : ∀ (m : Inset) (c c' : Cursor), m.Fronted → m.At c c' → test c = test c')
    (hspace : ∀ past rest, test ⟨past, ' ' :: rest⟩ = false) {past rest : Inset}
    (h : (mk past rest).text.Fronted) :
    firstPlace? test past.plain rest.plain =
      (firstPlace? test past.full rest.full).map fun n => (Inset.plain (rest.take n)).length := by
  induction rest generalizing past with
  | nil => rfl
  | cons x rest ih =>
    have hmore := @ih (x :: past) (by simpa [text] using h)
    obtain ⟨ch, _ | _⟩ := x
    · have hhere := htest _ _ _ h ⟨⟨past, (ch, false) :: rest⟩, rfl, rfl, rfl, rfl⟩
      simp only [plain, full, Inset.plain_cons_false, Inset.full_cons] at hhere hmore ⊢
      rw [firstPlace?, hhere, hmore, firstPlace?]
      split
      · rfl
      · simp [Function.comp_def]
    · obtain rfl : ch = ' ' := (fronted_rest h).spaced _ List.mem_cons_self rfl
      simp only [Inset.plain_cons_true, Inset.full_cons] at hmore ⊢
      rw [hmore, firstPlace?, hspace]
      simp [Function.comp_def]

theorem closingPlace?_plain {opener closer : Text} (hopener : opener.Visible) (hcloser : closer.Visible) (depth : Nat)
    {past rest : Inset} (h : (mk past rest).text.Fronted) :
    closingPlace? opener closer past.plain depth rest.plain =
      (closingPlace? opener closer past.full depth rest.full).map fun n => (Inset.plain (rest.take n)).length := by
  induction rest generalizing past depth with
  | nil => rfl
  | cons x rest ih =>
    have hmore depth := @ih depth (x :: past) (by simpa [text] using h)
    obtain ⟨ch, _ | _⟩ := x
    · have hat : (mk past ((ch, false) :: rest)).text.At ⟨past.plain, ch :: Inset.plain rest⟩
          ⟨past.full, ch :: Inset.full rest⟩ :=
        ⟨⟨past, (ch, false) :: rest⟩, rfl, rfl, rfl, rfl⟩
      have hopen := hat.matchesTerm h hopener.newline_not_mem
      have hclose := hat.matchesTerm h hcloser.newline_not_mem
      simp only [Inset.plain_cons_false, Inset.full_cons] at hmore ⊢
      simp only [closingPlace?, hopen, hclose, hmore]
      split
      · simp [Function.comp_def]
      · split
        · cases depth with
          | zero => rfl
          | succ depth => simp [Function.comp_def]
        · simp [Function.comp_def]
    · obtain rfl : ch = ' ' := (fronted_rest h).spaced _ List.mem_cons_self rfl
      simp only [Inset.plain_cons_true, Inset.full_cons] at hmore ⊢
      rw [hmore]
      simp [closingPlace?, Cursor.matchesTerm_space hopener, Cursor.matchesTerm_space hcloser, Function.comp_def]

end Spot

/-- The scanner looks for something visible. -/
def Scanner.Visible (s : Scanner) : Prop :=
  ∀ word ∈ s.words, word.Visible

instance (s : Scanner) : Decidable s.Visible :=
  inferInstanceAs (Decidable (∀ word ∈ s.words, word.Visible))

namespace Scanner

/-- The scans come to the same place, or to none. -/
abbrev Abreast (s : Scanner) (m : Inset) (c c' : Cursor) : Prop :=
  Option.Rel (fun n n' => m.At (c.advance n) (c'.advance n')) (s.reach? c) (s.reach? c')

section Lines

variable {s : Scanner} (h : m.At c c')

include hm h

/-- Scans that go equally far on the line come to the same place. -/
theorem abreast_of_line (heq : s.reach? c = s.reach? c') (hstop : ∀ n, s.reach? c' = some n → '\n' ∉ c'.rest.take n) :
    s.Abreast m c c' := by
  rw [Abreast, heq]
  cases hn : s.reach? c' with
  | none => exact .none
  | some n => exact .some (h.advance_line hm (reach?_le hn) (hstop n hn))

theorem abreast_spaceRequired : spaceRequired.Abreast m c c' := by
  have hblanks := h.around.skipBlanks hm
  rw [Cursor.skipWhile_eq_advance, Cursor.skipWhile_eq_advance] at hblanks
  have hzero (d : Cursor) : (d.rest.takeWhile isBlank).length = 0 ↔ d.next?.all (!isBlank ·) := by
    cases hd : d.rest with
    | nil => simp [Cursor.next?, hd]
    | cons ch rest => cases hch : isBlank ch <;> simp [Cursor.next?, hd, hch]
  have hboth := (hzero c).trans (h.next? ▸ (hzero c').symm)
  simp only [Abreast, reach?, positive?]
  by_cases hc : (c.rest.takeWhile isBlank).length = 0
  · rw [if_pos hc, if_pos (hboth.mp hc)]
    exact .none
  · rw [if_neg hc, if_neg (mt hboth.mpr hc)]
    exact .some hblanks

theorem abreast_keyword {word : Text} (hword : word.Visible) : (keyword word).Abreast m c c' := by
  refine abreast_of_line hm h ?_ fun n hn => ?_
  · rw [reach?, h.matchesWord hm hword.newline_not_mem, reach?]
  · simp only [reach?, Option.ite_none_right_eq_some, Option.some.injEq, Cursor.matchesWord, Bool.and_eq_true,
      Cursor.peek, List.isPrefixOf_iff_prefix] at hn
    obtain ⟨⟨⟨⟨-, hpeek⟩, -⟩, -⟩, rfl⟩ := hn
    rw [take_of_isPrefix hpeek]
    exact hword.newline_not_mem

theorem abreast_untilLineEndsWith (word : Text) : (untilLineEndsWith word).Abreast m c c' := by
  refine abreast_of_line hm h ?_ fun n hn => ?_
  · rw [reach?, h.restOfLine hm, reach?]
  · simp only [reach?] at hn
    split at hn
    · next before hbefore =>
      simp only [Option.ite_none_right_eq_some, Option.some.injEq] at hn
      obtain ⟨-, rfl⟩ := hn
      have hinit : before <+: c'.restOfLine :=
        List.IsPrefix.trans ⟨word, (Text.stripSuffix?_eq_some hbefore).symm⟩ (Text.trimEnd_isPrefix _)
      rw [take_of_isPrefix (hinit.trans c'.restOfLine_isPrefix)]
      intro hmem
      exact absurd (List.mem_takeWhile_imp (hinit.subset hmem)) (by decide)
    · cases hn

theorem abreast_token : token.Abreast m c c' := by
  have hnewline : isTokenChar '\n' = false := by decide
  have htokens : c.rest.takeWhile isTokenChar = c'.rest.takeWhile isTokenChar := by
    obtain ⟨p, rfl, hp, rfl, rfl⟩ := h
    exact hp.takeWhile (Spot.fronted_rest hm) hnewline
  refine abreast_of_line hm h ?_ fun n hn => ?_
  · rw [reach?, htokens, reach?]
  · obtain ⟨rfl, -⟩ := positive?_eq_some hn
    rw [take_of_isPrefix (List.takeWhile_prefix isTokenChar)]
    intro hmem
    have hnl := List.mem_takeWhile_imp hmem
    rw [hnewline] at hnl
    cases hnl

end Lines

section Places

variable {s : Scanner} {p : Spot} (hp : p.text.Fronted)

/-- Scans that pass as many characters, inserted ones apart, come to the same place if nothing was inserted right after it. -/
theorem abreast_of_place (heq : s.reach? p.plain = (s.reach? p.full).map fun n => (Inset.plain (p.rest.take n)).length)
    (hstop : ∀ n, s.reach? p.full = some n → Inset.Genuine (p.rest.drop n)) : s.Abreast p.text p.plain p.full := by
  rw [Abreast, heq]
  cases hn : s.reach? p.full with
  | none => exact .none
  | some n => exact .some (.advance (hstop n hn))

include hp

/-- Nothing was inserted right before something visible. -/
theorem genuine_of_peek {word : Text} (hword : word.Visible) {n : Nat} (hpeek : (p.full.advance n).peek word) :
    Inset.Genuine (p.rest.drop n) := by
  refine ((Spot.fronted_rest hp).drop n).genuine ?_
  rw [Inset.full_drop]
  exact hword.head?_ne_of_prefix (List.isPrefixOf_iff_prefix.mp hpeek)

theorem abreast_untilKeyword {word : Text} (hword : word.Visible) :
    (untilKeyword word).Abreast p.text p.plain p.full := by
  have hplace := Spot.firstPlace?_plain (fun _ _ _ hm h => h.matchesWord hm hword.newline_not_mem)
    (Cursor.matchesWord_space hword) hp
  refine abreast_of_place hplace fun n hn => genuine_of_peek hp hword ?_
  have hfound := Cursor.holds_of_firstPlace? hn
  simp only [Cursor.matchesWord, Bool.and_eq_true] at hfound
  exact hfound.1.1.2

theorem abreast_untilBalanced {opener closer : Text} (hopener : opener.Visible) (hcloser : closer.Visible) :
    (untilBalanced opener closer).Abreast p.text p.plain p.full := by
  refine abreast_of_place (Spot.closingPlace?_plain hopener hcloser 0 hp) fun n hn => genuine_of_peek hp hcloser ?_
  have hfound := Cursor.matchesTerm_of_closingPlace? hn
  simp only [Cursor.matchesTerm, Bool.and_eq_true] at hfound
  exact hfound.1.1.2

/-- The literal itself is the same in both texts, so the places after it are. -/
theorem abreast_untilIncluding {literal : Text} (hliteral : literal.Visible) :
    (untilIncluding literal).Abreast p.text p.plain p.full := by
  have hrest := Spot.fronted_rest hp
  have hindex : p.plain.rest.indexOf? literal = _ := hrest.indexOf?_plain hliteral
  have hafter (n : Nat) (hn : p.full.rest.indexOf? literal = some n) :
      Inset.plain ((p.rest.drop n).take literal.length) = literal ∧
        Inset.Genuine ((p.rest.drop n).drop literal.length) := by
    have hfound : literal <+: Inset.full (p.rest.drop n) := by
      rw [Inset.full_drop]
      exact (Text.indexOf?_eq_some hn).2
    have htake := take_of_isPrefix hfound
    have hgenuine := hrest.genuine_of_indexOf? hliteral hn
    have hboth := hgenuine.take (hrest.drop n) (n := literal.length) (by rw [htake]; exact hliteral.newline_not_mem)
    exact ⟨hboth.1.trans htake, hboth.2⟩
  refine abreast_of_place ?_ fun n hn => ?_
  · simp only [reach?, hindex]
    cases hn : p.full.rest.indexOf? literal with
    | none => simp [Spot.full] at hn; simp [hn]
    | some n =>
      have hlen := congrArg List.length (hafter n hn).1
      simp only [Spot.full] at hn
      simp [hn, List.take_add, hlen]
  · obtain ⟨k, hk, rfl⟩ := Option.map_eq_some_iff.mp hn
    rw [← List.drop_drop]
    exact (hafter k hk).2

end Places

/-- Scanners that look for something visible come to the same place. -/
theorem abreast_of_visible {s : Scanner} (hs : s.Visible) (hm : m.Fronted) (h : m.At c c') : s.Abreast m c c' := by
  cases s with
  | spaceOptional =>
    have hblanks := h.around.skipBlanks hm
    rw [Cursor.skipWhile_eq_advance, Cursor.skipWhile_eq_advance] at hblanks
    exact .some hblanks
  | spaceRequired => exact abreast_spaceRequired hm h
  | keyword word => exact abreast_keyword hm h (hs word List.mem_cons_self)
  | untilLiteral literal =>
    obtain ⟨p, rfl, -, rfl, rfl⟩ := h
    have hliteral := hs literal List.mem_cons_self
    have hrest := Spot.fronted_rest hm
    exact abreast_of_place (hrest.indexOf?_plain hliteral) fun n hn => hrest.genuine_of_indexOf? hliteral hn
  | untilKeyword word =>
    obtain ⟨p, rfl, -, rfl, rfl⟩ := h
    exact abreast_untilKeyword hm (hs word List.mem_cons_self)
  | untilBalanced opener closer =>
    obtain ⟨p, rfl, -, rfl, rfl⟩ := h
    exact abreast_untilBalanced hm (hs opener (by simp [words])) (hs closer (by simp [words]))
  | untilChar ch =>
    obtain ⟨p, rfl, -, rfl, rfl⟩ := h
    have hliteral := hs [ch] List.mem_cons_self
    have hrest := Spot.fronted_rest hm
    exact abreast_of_place (hrest.indexOf?_plain hliteral) fun n hn => hrest.genuine_of_indexOf? hliteral hn
  | untilIncluding literal =>
    obtain ⟨p, rfl, -, rfl, rfl⟩ := h
    exact abreast_untilIncluding hm (hs literal List.mem_cons_self)
  | untilLineEndsWith word => exact abreast_untilLineEndsWith hm h word
  | line =>
    refine abreast_of_line hm h ?_ fun n hn => ?_
    · rw [reach?, h.restOfLine hm, reach?]
    · obtain rfl : c'.restOfLine.length = n := by simpa [reach?] using hn
      rw [take_of_isPrefix c'.restOfLine_isPrefix]
      intro hmem
      exact absurd (List.mem_takeWhile_imp hmem) (by decide)
  | untilEnd =>
    obtain ⟨p, rfl, -, rfl, rfl⟩ := h
    refine abreast_of_place (by simp [reach?, Spot.plain, Spot.full]) fun n hn => ?_
    obtain rfl : p.full.rest.length = n := by simpa [reach?] using hn
    simp [Spot.full, Inset.genuine_nil]
  | lineStart =>
    refine abreast_of_line hm h ?_ fun n hn => ?_
    · rw [reach?, h.around.atLineStart hm, reach?]
    · simp only [reach?, Option.ite_none_right_eq_some, Option.some.injEq] at hn
      simp [← hn.2]
  | eof =>
    refine abreast_of_line hm h ?_ fun n hn => ?_
    · rw [reach?, h.isDone, reach?]
    · simp only [reach?, Option.ite_none_right_eq_some, Option.some.injEq] at hn
      simp [← hn.2]
  | token => exact abreast_token hm h

end Scanner

/-! ## Tests -/

theorem Test.holds_at {test : Test} (htest : test.Plain) (hm : m.Fronted) (h : m.At c c') : test.holds c = test.holds c' := by
  cases test with
  | atLineStart => exact h.around.atLineStart hm
  | bareLine => rw [holds, h.restOfLine hm, holds]
  | ahead literal => exact h.peek hm htest.2

end Places

end Offside
