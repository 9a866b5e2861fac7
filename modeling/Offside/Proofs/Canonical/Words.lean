import Offside.Proofs.Canonical.Lines

/-!
# The words of a line

The words of a line are names, reserved words and symbols, with single blanks between them. A keyword is found only where
it is a word of its own: not inside of a name, and not at a symbol.
-/

namespace Offside

/-! ## Characters of words -/

/-- No letter, digit or `_` is a blank. -/
theorem isBlank_of_isWordChar {ch : Char} (h : isWordChar ch) : isBlank ch = false := by
  -- The blanks beyond ASCII lie between the ranges of letters and digits.
  have hranges : ∀ n ∈ [0x85, 0xA0, 0x1680, 0x2000, 0x2001, 0x2002, 0x2003, 0x2004, 0x2005, 0x2006, 0x2007, 0x2008,
      0x2009, 0x200A, 0x2028, 0x2029, 0x202F, 0x205F, 0x3000],
      (alphanumericRanges.any fun range => range.1 ≤ n && n ≤ range.2) = false := by decide +kernel
  by_contra hblank
  have hcode : ch.toNat < 0x30 ∨ ch.toNat ∈ [0x85, 0xA0, 0x1680, 0x2000, 0x2001, 0x2002, 0x2003, 0x2004, 0x2005, 0x2006,
      0x2007, 0x2008, 0x2009, 0x200A, 0x2028, 0x2029, 0x202F, 0x205F, 0x3000] := by
    simp [isBlank] at hblank
    simp only [List.mem_cons, List.not_mem_nil, or_false]
    omega
  simp only [isWordChar, isAlphanumeric, Bool.or_eq_true, Bool.and_eq_true, decide_eq_true_eq, beq_iff_eq] at h
  rcases h with (hascii | ⟨hlarge, hrange⟩) | rfl
  · have hletter : 0x30 ≤ ch.toNat ∧ ch.toNat ≤ 0x7A := by
      change ((decide ('A'.val ≤ ch.val ∧ ch.val ≤ 'Z'.val) || decide ('a'.val ≤ ch.val) && decide (ch.val ≤ 'z'.val)) ||
        decide ('0'.val ≤ ch.val) && decide (ch.val ≤ '9'.val)) = true at hascii
      simp only [Bool.or_eq_true, Bool.and_eq_true, decide_eq_true_eq, UInt32.le_iff_toNat_le, Char.reduceVal,
        UInt32.reduceToNat, Char.toNat_val] at hascii
      omega
    simp only [List.mem_cons, List.not_mem_nil, or_false] at hcode
    omega
  · rcases hcode with hsmall | hmem
    · omega
    · rw [CodeRanges.contains, hranges _ hmem] at hrange
      cases hrange
  · exact hblank (by decide)

theorem not_isWordChar_of_any {s : Text} (h : s.any isWordChar = false) : ∀ ch ∈ s, isWordChar ch = false := by
  intro ch hch
  simpa using List.any_eq_false.mp h ch hch

/-- A letter, a digit or `_` can be part of a token. -/
theorem isTokenChar_of_isWordChar {ch : Char} (h : isWordChar ch) : isTokenChar ch := by
  have hsymbols : "()[]=,".toList.any isWordChar = false := by decide
  have hmem : ch ∉ "()[]=,".toList := by
    intro hmem
    rw [not_isWordChar_of_any hsymbols ch hmem] at h
    cases h
  rw [isTokenChar, isBlank_of_isWordChar h]
  simpa using hmem

namespace Canonical

open Cursor

/-- A word of letters, digits and `_`. -/
def Word (w : Text) : Prop :=
  w ≠ [] ∧ ∀ ch ∈ w, isWordChar ch

theorem word_of_mem_reserved {w : Text} (h : w ∈ reserved) : Word w := by
  have hall : reserved.all fun w => !w.isEmpty && w.all isWordChar := by decide
  have hw := List.all_eq_true.mp hall w h
  rw [Bool.and_eq_true, List.all_eq_true] at hw
  exact ⟨by simpa using hw.1, hw.2⟩

/-- A name, a reserved word or a symbol: letters, digits and `_`, or none of them, no blanks and no colon. -/
def Lexeme (w : Text) : Prop :=
  w ≠ [] ∧ ((∀ ch ∈ w, isWordChar ch) ∨ ∀ ch ∈ w, isWordChar ch = false ∧ isBlank ch = false ∧ ch ≠ ':')

theorem Word.lexeme {w : Text} (h : Word w) : Lexeme w :=
  ⟨h.1, Or.inl h.2⟩

/-- A word has no blanks. -/
theorem Lexeme.not_isBlank {w : Text} (h : Lexeme w) : ∀ ch ∈ w, isBlank ch = false := by
  rcases h.2 with hword | hsymbol
  · exact fun ch hch => isBlank_of_isWordChar (hword ch hch)
  · exact fun ch hch => (hsymbol ch hch).2.1

theorem Ident.lexeme (i : Ident) : Lexeme i.name :=
  ⟨i.name_ne_nil, Or.inl (List.all_eq_true.mp i.all_isWordChar)⟩

/-- What comes next to a word begins with no letter, digit or `_`. -/
def Apart (t : Text) : Prop :=
  t.head?.any isWordChar = false

theorem apart_blank (t : Text) : Apart (' ' :: t) := by
  have h : isWordChar ' ' = false := by decide
  simp [Apart, h]

theorem apart_newline (t : Text) : Apart ('\n' :: t) := by
  have h : isWordChar '\n' = false := by decide
  simp [Apart, h]

/-! ## Words with blanks between them -/

/-- Words with a separator between them are the first, and then the separator and a word for each of the others. -/
theorem intercalate_cons_flatMap (separator w : Text) (ws : List Text) :
    separator.intercalate (w :: ws) = w ++ ws.flatMap (separator ++ ·) := by
  induction ws generalizing w with
  | nil => simp
  | cons w' ws ih =>
    rw [List.intercalate_cons_cons, ih w']
    simp

theorem intercalate_cons (w : Text) (ws : List Text) : [' '].intercalate (w :: ws) = w ++ ws.flatMap (' ' :: ·) :=
  intercalate_cons_flatMap [' '] w ws

/-! ## Where a keyword is found -/

section Keywords

variable {kw past w rest : Text}

/-- Between what is no word, a keyword is found at a word just if it is that word. -/
theorem matchesTerm_word (hkw : Word kw) (hw : ∀ ch ∈ w, isWordChar ch) (hpast : Apart past)
    (hrest : Apart rest) : (Cursor.mk past (w ++ rest)).matchesTerm kw = true ↔ kw = w := by
  have hprev : (Cursor.mk past (w ++ rest)).prev?.any isWordChar = false := hpast
  constructor
  · intro h
    simp only [matchesTerm, Bool.and_eq_true, peek, List.isPrefixOf_iff_prefix] at h
    obtain ⟨⟨⟨-, hpre⟩, -⟩, hnext⟩ := h
    rcases List.prefix_or_prefix_of_prefix hpre (List.prefix_append w rest) with ⟨s, hs⟩ | ⟨s, hs⟩
    · cases s with
      | nil => simpa using hs
      | cons ch s =>
        -- The word goes on after the keyword.
        have hch : isWordChar ch := hw ch (by simp [← hs])
        rw [← hs] at hnext
        simp [advance, next?, hch] at hnext
    · cases s with
      | nil => simpa using hs.symm
      | cons ch s =>
        -- The keyword goes on after the word.
        have hch : isWordChar ch := hkw.2 ch (by simp [← hs])
        rw [← hs] at hpre
        obtain ⟨t, ht⟩ := hpre
        rw [List.append_assoc, List.append_cancel_left_eq] at ht
        rw [Apart, ← ht] at hrest
        simp [hch] at hrest
  · rintro rfl
    have hnext : ((Cursor.mk past (kw ++ rest)).advance kw.length).next?.any isWordChar = false := by
      rw [advance_length]
      exact hrest
    simp [matchesTerm, peek, hkw.1, hprev, hnext]

/-- No keyword is found inside of a word. -/
theorem matchesTerm_of_prev (hpast : past.head?.any isWordChar = true) :
    (Cursor.mk past rest).matchesTerm kw = false := by
  simp [matchesTerm, prev?, hpast]

/-- No keyword is found at what is no word. -/
theorem matchesTerm_of_next (hkw : Word kw) (hrest : Apart rest) :
    (Cursor.mk past rest).matchesTerm kw = false := by
  obtain ⟨hne, hword⟩ := hkw
  cases kw with
  | nil => exact absurd rfl hne
  | cons ch kw =>
    have hch : isWordChar ch := hword ch (by simp)
    cases rest with
    | nil => simp [matchesTerm, peek]
    | cons x rest =>
      have hx : ch ≠ x := by
        rintro rfl
        simp [Apart, hch] at hrest
      simp [matchesTerm, peek, hx]

/-- Where a keyword is set off by blanks, it is set off. -/
theorem matchesTerm_of_matchesWord {c : Cursor} (hkw : Word kw) (h : c.matchesWord kw) :
    c.matchesTerm kw := by
  have hfirst : kw.head?.any isWordChar = true := by
    cases kw with
    | nil => exact absurd rfl hkw.1
    | cons ch kw => simpa using hkw.2 ch (by simp)
  have hlast : kw.getLast?.any isWordChar = true := by
    rw [List.getLast?_eq_some_getLast hkw.1]
    exact hkw.2 _ (List.getLast_mem hkw.1)
  have hapart : ∀ o : Option Char, o.all isBlank → o.any isWordChar = false := by
    intro o ho
    cases o with
    | none => rfl
    | some ch =>
      by_contra hch
      have hblank := isBlank_of_isWordChar (by simpa using hch)
      simp [hblank] at ho
  simp only [matchesWord, hfirst, hlast, Bool.not_true, Bool.false_or, Bool.and_eq_true] at h
  obtain ⟨⟨⟨hne, hpeek⟩, hprev⟩, hnext⟩ := h
  simp [matchesTerm, hne, hpeek, hapart _ hprev, hapart _ hnext]

/-- Between blanks, or at an end of the text, a keyword is found. -/
theorem matchesWord_of_blanks (hkw : kw ≠ []) (hpast : past.head?.all isBlank) (hrest : rest.head?.all isBlank) :
    (Cursor.mk past (kw ++ rest)).matchesWord kw := by
  have hprev : (Cursor.mk past (kw ++ rest)).prev?.all isBlank := hpast
  have hnext : ((Cursor.mk past (kw ++ rest)).advance kw.length).next?.all isBlank := by
    rw [advance_length]
    exact hrest
  simp [matchesWord, peek, hkw, hprev, hnext]

/-- Another word is no match for a keyword. -/
theorem matchesWord_of_ne (hkw : Word kw) (hw : ∀ ch ∈ w, isWordChar ch) (hpast : Apart past)
    (hrest : Apart rest) (hne : kw ≠ w) : (Cursor.mk past (w ++ rest)).matchesWord kw = false := by
  by_contra h
  have hterm := matchesTerm_of_matchesWord hkw (by simpa using h)
  exact hne ((matchesTerm_word hkw hw hpast hrest).mp hterm)

/-! ## Where no keyword begins -/

/-- No term begins in a text, given what comes before it and after it. -/
def Free (kw past s rest : Text) : Prop :=
  ∀ a b, s = a ++ b → b ≠ [] → (Cursor.mk (a.reverse ++ past) (b ++ rest)).matchesTerm kw = false

theorem free_nil : Free kw past [] rest := by
  intro a b hab hb
  rw [List.nil_eq, List.append_eq_nil_iff] at hab
  exact absurd hab.2 hb

theorem free_cons {ch : Char} {s : Text} (hhead : (Cursor.mk past (ch :: s ++ rest)).matchesTerm kw = false)
    (htail : Free kw (ch :: past) s rest) : Free kw past (ch :: s) rest := by
  intro a b hab hb
  cases a with
  | nil =>
    rw [List.nil_append] at hab
    subst hab
    exact hhead
  | cons x a =>
    obtain ⟨rfl, hs⟩ := List.cons.inj hab
    have h := htail a b hs hb
    simpa using h

theorem Free.head {ch : Char} {s : Text} (h : Free kw past (ch :: s) rest) :
    (Cursor.mk past (ch :: (s ++ rest))).matchesTerm kw = false := by
  have hfirst := h [] (ch :: s) rfl (by simp)
  simpa using hfirst

theorem Free.tail {ch : Char} {s : Text} (h : Free kw past (ch :: s) rest) : Free kw (ch :: past) s rest := by
  intro a b hab hb
  have hrest := h (ch :: a) b (by rw [hab]; rfl) hb
  simpa using hrest

theorem free_append {s s' : Text} (hs : Free kw past s (s' ++ rest)) (hs' : Free kw (s.reverse ++ past) s' rest) :
    Free kw past (s ++ s') rest := by
  induction s generalizing past with
  | nil => exact hs'
  | cons ch s ih =>
    have hhead := hs.head
    rw [List.cons_append]
    exact free_cons (by simpa using hhead) (ih hs.tail (by simpa using hs'))

variable (hkw : Word kw)

/-- No term begins inside of a word. -/
theorem free_of_prev (hpast : past.head?.any isWordChar = true) (hw : ∀ ch ∈ w, isWordChar ch) : Free kw past w rest := by
  induction w generalizing past with
  | nil => exact free_nil
  | cons ch w ih =>
    obtain ⟨hch, hw'⟩ := List.forall_mem_cons.mp hw
    exact free_cons (matchesTerm_of_prev hpast) (ih (by simpa using hch) hw')

include hkw

/-- No term begins in what has no letters, digits or `_`. -/
theorem free_of_not_word {s : Text} (hs : ∀ ch ∈ s, isWordChar ch = false) : Free kw past s rest := by
  induction s generalizing past with
  | nil => exact free_nil
  | cons ch s ih =>
    obtain ⟨hch, hs'⟩ := List.forall_mem_cons.mp hs
    exact free_cons (matchesTerm_of_next hkw (by simpa [Apart] using hch)) (ih hs')

/-- A term begins in no other word. -/
theorem free_lexeme (hw : Lexeme w) (hne : kw ≠ w) (hpast : Apart past) (hrest : Apart rest) : Free kw past w rest := by
  rcases hw.2 with hword | hsymbol
  · cases w with
    | nil => exact free_nil
    | cons ch w =>
      obtain ⟨hch, hword'⟩ := List.forall_mem_cons.mp hword
      refine free_cons ?_ (free_of_prev (by simpa using hch) hword')
      by_contra h
      exact hne ((matchesTerm_word hkw hword hpast hrest).mp (by simpa using h))
  · exact free_of_not_word hkw fun ch hch => (hsymbol ch hch).1

/-- A term begins in no words that are other words, with blanks before them. -/
theorem free_flatMap {ws : List Text} (hws : ∀ w ∈ ws, Lexeme w ∧ kw ≠ w) (hrest : Apart rest) :
    Free kw past (ws.flatMap (' ' :: ·)) rest := by
  induction ws generalizing past with
  | nil => exact free_nil
  | cons w ws ih =>
    obtain ⟨⟨hw, hne⟩, hws'⟩ := List.forall_mem_cons.mp hws
    have hnext : Apart (ws.flatMap (' ' :: ·) ++ rest) := by
      cases ws with
      | nil => simpa using hrest
      | cons w' ws => exact apart_blank _
    rw [List.flatMap_cons]
    refine free_append (s := ' ' :: w) (free_cons (matchesTerm_of_next hkw (apart_blank _)) ?_) (ih hws')
    exact free_lexeme hkw hw hne (apart_blank past) hnext

/-- A term begins in no line of other words. -/
theorem free_intercalate {ws : List Text} (hws : ∀ w ∈ ws, Lexeme w ∧ kw ≠ w) (hpast : Apart past)
    (hrest : Apart rest) : Free kw past ([' '].intercalate ws) rest := by
  cases ws with
  | nil => exact free_nil
  | cons w ws =>
    obtain ⟨⟨hw, hne⟩, hws'⟩ := List.forall_mem_cons.mp hws
    have hnext : Apart (ws.flatMap (' ' :: ·) ++ rest) := by
      cases ws with
      | nil => simpa using hrest
      | cons w' ws => exact apart_blank _
    rw [intercalate_cons]
    exact free_append (free_lexeme hkw hw hne hpast hnext) (free_flatMap hkw hws' hrest)

end Keywords

/-! ## Searching -/

/-- A search for a keyword passes a text in which it does not begin. -/
theorem firstPlace?_append {kw past s rest : Text} (hkw : Word kw) (hs : Free kw past s rest) :
    firstPlace? (·.matchesWord kw) past (s ++ rest) =
      (firstPlace? (·.matchesWord kw) (s.reverse ++ past) rest).map (· + s.length) := by
  induction s generalizing past with
  | nil => simp
  | cons ch s ih =>
    have hhead : (Cursor.mk past (ch :: (s ++ rest))).matchesWord kw = false := by
      by_contra h
      have hterm := matchesTerm_of_matchesWord hkw (by simpa using h)
      rw [hs.head] at hterm
      cases hterm
    rw [List.cons_append, firstPlace?, hhead, ih hs.tail]
    simp [Option.map_map, Function.comp_def, Nat.add_assoc]

/-- A search for the closing term passes a text in which neither the opening nor the closing term begins. -/
theorem closingPlace?_append {opener closer past s rest : Text} {depth : Nat} (ho : Free opener past s rest)
    (hc : Free closer past s rest) :
    closingPlace? opener closer past depth (s ++ rest) =
      (closingPlace? opener closer (s.reverse ++ past) depth rest).map (· + s.length) := by
  induction s generalizing past with
  | nil => simp
  | cons ch s ih =>
    simp only [List.cons_append, closingPlace?, ho.head, hc.head, ih ho.tail hc.tail]
    simp [Option.map_map, Function.comp_def, Nat.add_assoc]

section Closing

variable {opener closer past rest : Text} {depth : Nat}

/-- Past the first character of a word, the rest of the word is passed. -/
theorem closingPlace?_of_prev {ch : Char} {w : Text} (hch : isWordChar ch) (hw : ∀ ch ∈ w, isWordChar ch) :
    closingPlace? opener closer (ch :: past) depth (w ++ rest) =
      (closingPlace? opener closer (w.reverse ++ ch :: past) depth rest).map (· + w.length) :=
  closingPlace?_append (free_of_prev (by simpa using hch) hw) (free_of_prev (by simpa using hch) hw)

/-- An opening term is passed, and waits for its closing term. -/
theorem closingPlace?_opener (ho : Word opener) (hpast : Apart past)
    (hrest : Apart rest) :
    closingPlace? opener closer past depth (opener ++ rest) =
      (closingPlace? opener closer (opener.reverse ++ past) (depth + 1) rest).map (· + opener.length) := by
  have hmatch : (Cursor.mk past (opener ++ rest)).matchesTerm opener := (matchesTerm_word ho ho.2 hpast hrest).mpr rfl
  obtain ⟨ch, w, rfl⟩ : ∃ ch w, opener = ch :: w := List.exists_cons_of_ne_nil ho.1
  obtain ⟨hch, hw⟩ := List.forall_mem_cons.mp ho.2
  rw [List.cons_append] at hmatch ⊢
  simp only [closingPlace?, hmatch, if_true, closingPlace?_of_prev hch hw]
  simp [Option.map_map, Function.comp_def, Nat.add_assoc]

variable (hc : Word closer) (ho : Word opener)
  (hne : opener ≠ closer) (hpast : Apart past) (hrest : Apart rest)

include hc ho hne hpast hrest

/-- The first closing term without an opening term is the one. -/
theorem closingPlace?_closer_zero : closingPlace? opener closer past 0 (closer ++ rest) = some 0 := by
  have hmatch : (Cursor.mk past (closer ++ rest)).matchesTerm closer := (matchesTerm_word hc hc.2 hpast hrest).mpr rfl
  have hno : ¬(Cursor.mk past (closer ++ rest)).matchesTerm opener = true := by
    rw [matchesTerm_word ho hc.2 hpast hrest]
    exact hne
  obtain ⟨ch, w, rfl⟩ : ∃ ch w, closer = ch :: w := List.exists_cons_of_ne_nil hc.1
  rw [List.cons_append] at hmatch hno ⊢
  simp only [closingPlace?, hmatch, if_neg hno, if_true]

/-- A closing term is passed where an opening term waits for it. -/
theorem closingPlace?_closer_succ :
    closingPlace? opener closer past (depth + 1) (closer ++ rest) =
      (closingPlace? opener closer (closer.reverse ++ past) depth rest).map (· + closer.length) := by
  have hmatch : (Cursor.mk past (closer ++ rest)).matchesTerm closer := (matchesTerm_word hc hc.2 hpast hrest).mpr rfl
  have hno : ¬(Cursor.mk past (closer ++ rest)).matchesTerm opener = true := by
    rw [matchesTerm_word ho hc.2 hpast hrest]
    exact hne
  obtain ⟨ch, w, rfl⟩ : ∃ ch w, closer = ch :: w := List.exists_cons_of_ne_nil hc.1
  obtain ⟨hch, hw⟩ := List.forall_mem_cons.mp hc.2
  rw [List.cons_append] at hmatch hno ⊢
  simp only [closingPlace?, hmatch, if_neg hno, if_true, closingPlace?_of_prev hch hw]
  simp [Option.map_map, Function.comp_def, Nat.add_assoc]

end Closing

end Canonical

end Offside
