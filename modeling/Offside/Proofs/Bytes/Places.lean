import Offside.Cursor.Word
import Offside.Outcome
import Offside.Proofs.Cursor.Order
import Offside.Proofs.Cursor.Prefix

/-!
# Places in bytes

A place can also be held as a text and an offset in bytes. Such a pair need not be a place: the offset may be past the end
of the text, or inside a character. `BytePlace` answers what is asked about a place in this form; whenever a part of the
text is taken, its bounds must be in order, in the text and between characters, or else that is a halt.
`Cursor.inBytes` holds a cursor so, and all these checks pass there.
-/

namespace Offside

/-- An answer, or the halt that there is instead. -/
abbrev Checked (α : Type) := Except Halt α

@[simp] theorem Checked.ok_bind {α β : Type} (a : α) (next : α → Checked β) : (Except.ok a >>= next) = next a := rfl

/-! ## Parts of a text -/

namespace Text

/-- The part of a text before an offset, which has to be a place of it. -/
def upTo (t : Text) (stop : Nat) : Checked Text :=
  match t.charsIn? stop with
  | some n => .ok (t.take n)
  | none => .error .outOfRange

/-- The part of a text from an offset on, which has to be a place of it. -/
def onFrom (t : Text) (start : Nat) : Checked Text :=
  match t.charsIn? start with
  | some n => .ok (t.drop n)
  | none => .error .outOfRange

/-- The part of a text between two offsets, which have to be in order. -/
def between (t : Text) (start stop : Nat) : Checked Text :=
  if start ≤ stop then (t.upTo stop).bind (·.onFrom start) else .error .outOfRange

/-- The offset of the first character that satisfies a test. -/
def firstByte? (test : Char → Bool) : Text → Option Nat
  | [] => none
  | ch :: t => if test ch then some 0 else (firstByte? test t).map (ch.utf8Size + ·)

/-- The offset of the last character that satisfies a test. -/
def lastByte? (test : Char → Bool) : Text → Option Nat
  | [] => none
  | ch :: t =>
    match lastByte? test t with
    | some i => some (ch.utf8Size + i)
    | none => if test ch then some 0 else none

/-- The offset of the first occurrence of a literal. -/
def literalByte? : Text → Text → Option Nat
  | [], literal => if literal.isEmpty then some 0 else none
  | ch :: t, literal =>
    if literal.isPrefixOf (ch :: t) then some 0 else (literalByte? t literal).map (ch.utf8Size + ·)

/-- The offset of a character, by its number from zero. -/
def nthByte? : Nat → Text → Option Nat
  | _, [] => none
  | 0, _ :: _ => some 0
  | n + 1, ch :: t => (nthByte? n t).map (ch.utf8Size + ·)

variable {s t w : Text}

theorem utf8Size_eq_zero : t.utf8Size = 0 ↔ t = [] := by
  cases t with
  | nil => simp
  | cons ch t =>
    have hpos := ch.utf8Size_pos
    simp only [utf8Size_cons, List.cons_ne_nil, iff_false]
    omega

theorem charsIn?_utf8Size : charsIn? s.utf8Size (s ++ t) = some s.length := by
  simpa [charsIn?] using Cursor.charsIn?_append s t 0

/-- So many characters take up the bytes that they were counted in. -/
theorem utf8Size_of_charsIn? {bytes n : Nat} (h : charsIn? bytes t = some n) : utf8Size (t.take n) = bytes := by
  fun_induction charsIn? bytes t generalizing n with
  | case1 t =>
    obtain rfl : 0 = n := by simpa using h
    rfl
  | case2 bytes => cases h
  | case3 bytes ch t hle ih =>
    obtain ⟨m, hm, rfl⟩ := Option.map_eq_some_iff.mp h
    rw [List.take_succ_cons, utf8Size_cons, ih hm]
    omega
  | case4 bytes ch t hlt => cases h

theorem upTo_append : upTo (s ++ t) s.utf8Size = .ok s := by
  simp [upTo, charsIn?_utf8Size]

/-- The part before the offset of a character, or the whole text where there is no such character. -/
theorem upTo_byte? {byte? : Option Nat} (h : byte?.getD t.utf8Size = s.utf8Size) (hpart : s <+: t) :
    (match byte? with
      | some i => t.upTo i
      | none => .ok t) = .ok s := by
  obtain ⟨rest, rfl⟩ := hpart
  cases byte? with
  | some i =>
    obtain rfl : i = s.utf8Size := h
    exact upTo_append
  | none =>
    have hrest : Text.utf8Size rest = 0 := by simpa using h
    rw [utf8Size_eq_zero.mp hrest, List.append_nil]

theorem onFrom_append : onFrom (s ++ t) s.utf8Size = .ok t := by
  simp [onFrom, charsIn?_utf8Size]

theorem between_append : between (s ++ (w ++ t)) s.utf8Size (s.utf8Size + w.utf8Size) = .ok w := by
  have hupTo : upTo (s ++ (w ++ t)) (s.utf8Size + w.utf8Size) = .ok (s ++ w) := by
    rw [← utf8Size_append, ← List.append_assoc]
    exact upTo_append
  rw [between, if_pos (Nat.le_add_right _ _), hupTo]
  exact onFrom_append

/-- The characters before the first that satisfies a test take up the bytes before it, or the whole text. -/
theorem firstByte?_getD (test : Char → Bool) (t : Text) :
    (firstByte? test t).getD t.utf8Size = utf8Size (t.takeWhile (!test ·)) := by
  induction t with
  | nil => rfl
  | cons ch t ih =>
    rw [firstByte?, List.takeWhile_cons]
    cases htest : test ch with
    | true => simp
    | false =>
      simp only [Bool.false_eq_true, if_false, Bool.not_false, if_true, utf8Size_cons, ← ih]
      cases firstByte? test t <;> rfl

theorem firstByte?_eq_none {test : Char → Bool} : firstByte? test t = none ↔ t.all (!test ·) := by
  induction t with
  | nil => simp [firstByte?]
  | cons ch t ih =>
    rw [firstByte?, List.all_cons]
    cases htest : test ch with
    | true => simp
    | false => simp [ih]

theorem lastByte?_eq_none {test : Char → Bool} (h : t.all (!test ·)) : lastByte? test t = none := by
  induction t with
  | nil => rfl
  | cons ch t ih =>
    obtain ⟨hch, ht⟩ : test ch = false ∧ t.all (!test ·) := by simpa using h
    simp [lastByte?, ih ht, hch]

theorem lastByte?_append {test : Char → Bool} {ch : Char} (s : Text) (hch : test ch) (h : t.all (!test ·)) :
    lastByte? test (s ++ ch :: t) = some s.utf8Size := by
  induction s with
  | nil => simp [lastByte?, lastByte?_eq_none h, hch]
  | cons first s ih => rw [List.cons_append, lastByte?, ih, utf8Size_cons]

/-- The last line starts behind the last newline, which takes one byte, or else at the start of the text. -/
theorem lastByte?_newline (t : Text) :
    ((lastByte? (· == '\n') t).map (· + 1)).getD 0 = utf8Size (t.reverse.dropWhile (· != '\n')) := by
  have hsplit := List.takeWhile_append_dropWhile (p := (· != '\n')) (l := t.reverse)
  have hline : (t.reverse.takeWhile (· != '\n')).reverse.all (!· == '\n') := by
    rw [List.all_reverse]
    exact List.all_takeWhile
  cases hbefore : t.reverse.dropWhile (· != '\n') with
  | nil =>
    rw [hbefore, List.append_nil] at hsplit
    rw [hsplit, List.reverse_reverse] at hline
    rw [lastByte?_eq_none hline]
    rfl
  | cons ch before =>
    obtain rfl : ch = '\n' := by
      have hhead := List.head?_dropWhile_not (· != '\n') t.reverse
      simpa [hbefore] using hhead
    rw [hbefore] at hsplit
    have ht : t = before.reverse ++ '\n' :: (t.reverse.takeWhile (· != '\n')).reverse := by
      have h := congrArg List.reverse hsplit
      simpa using h.symm
    rw [ht, lastByte?_append before.reverse rfl hline, Option.map_some, Option.getD_some, utf8Size_reverse,
      utf8Size_cons]
    exact Nat.add_comm _ 1

/-- A literal occurs first behind the characters before it. -/
theorem literalByte?_eq (t literal : Text) :
    t.literalByte? literal = (t.indexOf? literal).map fun n => utf8Size (t.take n) := by
  induction t with
  | nil =>
    rw [literalByte?, indexOf?]
    split <;> rfl
  | cons ch t ih =>
    rw [literalByte?, indexOf?]
    split
    · rfl
    · rw [ih, Option.map_map, Option.map_map]
      rfl

theorem firstByte?_eq (ch : Char) (t : Text) :
    firstByte? (· == ch) t = (t.indexOf? [ch]).map fun n => utf8Size (t.take n) := by
  induction t with
  | nil => rfl
  | cons next t ih =>
    have hhead : [ch].isPrefixOf (next :: t) = (next == ch) := by
      rw [List.isPrefixOf, List.isPrefixOf, Bool.and_true]
      exact BEq.comm
    rw [firstByte?, indexOf?, ih, Option.map_map, hhead]
    split
    · rfl
    · rw [Option.map_map]
      rfl

/-- The first characters take up the bytes before the next, or the whole text. -/
theorem nthByte?_getD (n : Nat) (t : Text) : (nthByte? n t).getD t.utf8Size = utf8Size (t.take n) := by
  induction t generalizing n with
  | nil => simp [nthByte?]
  | cons ch t ih =>
    cases n with
    | zero => rfl
    | succ n =>
      rw [nthByte?, List.take_succ_cons, utf8Size_cons, utf8Size_cons, ← ih]
      cases nthByte? n t <;> rfl

end Text


/-! ## Places -/

/-- A text, and an offset in bytes that may be a place of it. -/
structure BytePlace where
  /-- The whole text. -/
  text : Text
  /-- The number of bytes before the place. -/
  offset : Nat
deriving DecidableEq

namespace BytePlace

variable (b stop : BytePlace) (word : Text) (n width : Nat) (test : Char → Bool)

/-- The text after the place. -/
def rest : Checked Text :=
  b.text.onFrom b.offset

/-- The text before the place. -/
def past : Checked Text :=
  b.text.upTo b.offset

/-- Whether the place is at the end of its text or past it. -/
def isDone : Bool :=
  b.text.utf8Size ≤ b.offset

/-- Whether a literal is right after the place. -/
def peek (literal : Text) : Checked Bool := do
  return literal.isPrefixOf (← b.rest)

/-- The place some bytes further, which has to be one. -/
def advance : Checked BytePlace :=
  match b.text.charsIn? (b.offset + n) with
  | some _ => .ok ⟨b.text, b.offset + n⟩
  | none => .error .outOfRange

/-- The character right after the place. -/
def next? : Checked (Option Char) := do
  return (← b.rest).head?

/-- The character right before the place. -/
def prev? : Checked (Option Char) := do
  return (← b.past).getLast?

/-- The text between the place and another of the same text. -/
def sliceTo : Checked Text :=
  b.text.between b.offset stop.offset

/-- The rest of the line, without its newline. -/
def restOfLine : Checked Text := do
  let rest ← b.rest
  match rest.firstByte? (· == '\n') with
  | some i => rest.upTo i
  | none => return rest

/-- The start of the line. -/
def lineStart : Checked BytePlace := do
  return ⟨b.text, (((← b.past).lastByte? (· == '\n')).map (· + 1)).getD 0⟩

/-- Whether only blanks come before the place on its line. -/
def atLineStart : Checked Bool := do
  return ((← b.past).reverse.takeWhile (· != '\n')).all isBlank

/-- Whether a word is right after the place, and what is beside it passes a test. -/
def hasWord (apart : Option Char → Option Char → Bool) : Checked Bool := do
  if word.isEmpty || !(← b.peek word) then return false
  let before ← b.prev?
  let after ← (← b.advance word.utf8Size).next?
  return apart before after

/-- Whether a word is right after the place, set off by blanks. -/
def matchesWord : Checked Bool :=
  b.hasWord word fun before after =>
    (!word.head?.any isWordChar || before.all isBlank) && (!word.getLast?.any isWordChar || after.all isBlank)

/-- Whether a word is right after the place, with no letter, digit or `_` beside it. -/
def matchesTerm : Checked Bool :=
  b.hasWord word fun before after => !before.any isWordChar && !after.any isWordChar

/-- At most so many characters of what is left. -/
def window : Checked Text := do
  let rest ← b.rest
  match rest.nthByte? width with
  | some i => rest.upTo i
  | none => return rest

/-- The place past the characters that satisfy a test. -/
def skipWhile : Checked BytePlace := do
  let rest ← b.rest
  b.advance ((rest.firstByte? (!test ·)).getD rest.utf8Size)

end BytePlace

namespace Cursor

/-- The cursor as a text and an offset in bytes. -/
def inBytes (c : Cursor) : BytePlace :=
  ⟨c.text, c.offset⟩

variable (c d : Cursor) (w : Text) (test : Char → Bool)

@[simp] theorem inBytes_text : c.inBytes.text = c.text := rfl

@[simp] theorem inBytes_offset : c.inBytes.offset = c.offset := rfl

@[simp] theorem inBytes_rest : c.inBytes.rest = .ok c.rest := by
  have h := Text.onFrom_append (s := c.past.reverse) (t := c.rest)
  rwa [utf8Size_reverse] at h

@[simp] theorem inBytes_past : c.inBytes.past = .ok c.past.reverse := by
  have h := Text.upTo_append (s := c.past.reverse) (t := c.rest)
  rwa [utf8Size_reverse] at h

theorem utf8Size_text : c.text.utf8Size = c.offset + c.rest.utf8Size := by
  rw [text, Text.utf8Size_append, utf8Size_reverse, offset]

/-- No place is past the end of its text. -/
theorem offset_le_utf8Size : c.offset ≤ c.text.utf8Size := by
  rw [utf8Size_text]
  exact Nat.le_add_right _ _

/-- Of two places in order the later one has the larger offset. -/
theorem offset_lt_of_lt {c d : Cursor} (h : c < d) : c.offset < d.offset := by
  obtain ⟨hle, hlt⟩ := lt_iff.mp h
  obtain ⟨t, -, hrest⟩ := slice?_of_le hle
  have hpos : t.utf8Size ≠ 0 := by
    intro hzero
    rw [hrest, Text.utf8Size_eq_zero.mp hzero] at hlt
    exact Nat.lt_irrefl _ hlt
  have hsize := c.utf8Size_text
  have hsize' := d.utf8Size_text
  rw [text_eq_of_le hle] at hsize'
  rw [hrest, Text.utf8Size_append] at hsize
  omega

/-- The place at an offset of a text is that text and that offset. -/
theorem inBytes_of_seek? {t : Text} {offset : Nat} {c : Cursor} (h : (start t).seek? offset = some c) :
    c.inBytes = ⟨t, offset⟩ := by
  obtain ⟨n, hn, rfl⟩ := Option.map_eq_some_iff.mp h
  have hsize : Text.utf8Size (t.take n) = offset := Text.utf8Size_of_charsIn? hn
  simp only [inBytes, text_advance, text_start, BytePlace.mk.injEq, true_and]
  simpa [Cursor.offset, advance, start, utf8Size_reverse] using hsize

/-- Past a run of characters the place is as many bytes further on as they take up. -/
theorem offset_skipWhile : (c.skipWhile test).offset = c.offset + Text.utf8Size (c.rest.takeWhile test) := by
  simp [offset, skipWhile, utf8Size_reverse, Nat.add_comm]

@[simp] theorem inBytes_isDone : c.inBytes.isDone = c.isDone := by
  have hdone : c.offset + c.rest.utf8Size ≤ c.offset ↔ c.rest = [] := by
    rw [← Text.utf8Size_eq_zero]
    omega
  rw [Bool.eq_iff_iff]
  simp [BytePlace.isDone, isDone, utf8Size_text, hdone]

/-- Past what comes next the place is as many bytes further on. -/
theorem inBytes_advance (h : w <+: c.rest) : c.inBytes.advance w.utf8Size = .ok (c.advance w.length).inBytes := by
  obtain ⟨rest, hrest⟩ := h
  have htake : c.rest.take w.length = w := by rw [← hrest, List.take_left]
  have htext : c.text = c.past.reverse ++ w ++ rest := by rw [text, ← hrest, List.append_assoc]
  have hoffset : c.offset + w.utf8Size = Text.utf8Size (c.past.reverse ++ w) := by
    rw [Text.utf8Size_append, utf8Size_reverse, offset]
  have hplace : (c.advance w.length).inBytes = ⟨c.text, c.offset + w.utf8Size⟩ := by
    simp only [inBytes, text_advance, BytePlace.mk.injEq, true_and]
    rw [offset, advance, htake, Text.utf8Size_append, utf8Size_reverse, Nat.add_comm]
    rfl
  have hchars : c.text.charsIn? (c.offset + w.utf8Size) = some (c.past.reverse ++ w).length := by
    rw [hoffset, htext]
    exact Text.charsIn?_utf8Size
  rw [hplace, BytePlace.advance]
  simp only [inBytes, hchars]

/-- So many characters further the place is as many bytes further as they take up. -/
theorem inBytes_advance_take {n : Nat} (h : n ≤ c.rest.length) :
    c.inBytes.advance (Text.utf8Size (c.rest.take n)) = .ok (c.advance n).inBytes := by
  have htake := inBytes_advance c (c.rest.take n) (List.take_prefix n c.rest)
  rwa [List.length_take, Nat.min_eq_left h] at htake

@[simp] theorem inBytes_peek (literal : Text) : c.inBytes.peek literal = .ok (c.peek literal) := by
  simp [BytePlace.peek, peek]

@[simp] theorem inBytes_next? : c.inBytes.next? = .ok c.next? := by
  simp [BytePlace.next?, next?]

@[simp] theorem inBytes_prev? : c.inBytes.prev? = .ok c.prev? := by
  simp [BytePlace.prev?, prev?]

/-- The text up to a later place is the text between the two. -/
theorem inBytes_sliceTo {c d : Cursor} (h : c ≤ d) {t : Text} (ht : c.slice? d = some t) :
    c.inBytes.sliceTo d.inBytes = .ok t := by
  obtain ⟨t', hslice, hrest⟩ := slice?_of_le h
  obtain rfl : t = t' := Option.some.inj (ht.symm.trans hslice)
  have hsize := c.utf8Size_text
  have hsize' := d.utf8Size_text
  rw [text_eq_of_le h, hsize, hrest, Text.utf8Size_append] at hsize'
  have hbetween := Text.between_append (s := c.past.reverse) (w := t) (t := d.rest)
  rw [utf8Size_reverse, ← hrest] at hbetween
  have hoffset : d.inBytes.offset = c.past.utf8Size + t.utf8Size := by
    have hfirst : c.offset = c.past.utf8Size := rfl
    have hlast : d.inBytes.offset = d.offset := rfl
    omega
  rw [BytePlace.sliceTo, hoffset]
  exact hbetween

@[simp] theorem inBytes_restOfLine : c.inBytes.restOfLine = .ok c.restOfLine := by
  simp only [BytePlace.restOfLine, inBytes_rest, Checked.ok_bind]
  exact Text.upTo_byte? (Text.firstByte?_getD (· == '\n') c.rest) (List.takeWhile_prefix _)

@[simp] theorem inBytes_lineStart : c.inBytes.lineStart = .ok c.toLineStart.inBytes := by
  have hstart := Text.lastByte?_newline c.past.reverse
  rw [List.reverse_reverse] at hstart
  have hplace : c.toLineStart.inBytes = ⟨c.text, Text.utf8Size (c.past.dropWhile (· != '\n'))⟩ := by
    rw [inBytes, text_toLineStart]
    rfl
  simp only [BytePlace.lineStart, inBytes_past, Checked.ok_bind, hstart, hplace]
  rfl

@[simp] theorem inBytes_atLineStart : c.inBytes.atLineStart = .ok c.atLineStart := by
  simp [BytePlace.atLineStart, atLineStart, lead]

@[simp] theorem inBytes_hasWord (word : Text) (apart : Option Char → Option Char → Bool) :
    c.inBytes.hasWord word apart =
      .ok (!word.isEmpty && c.peek word && apart c.prev? (c.advance word.length).next?) := by
  simp only [BytePlace.hasWord, inBytes_peek, Checked.ok_bind]
  cases hempty : word.isEmpty with
  | true => rfl
  | false =>
    cases hpeek : c.peek word with
    | false => rfl
    | true =>
      -- Only where the word comes next is the place behind it asked for.
      have hadvance := inBytes_advance c word (List.isPrefixOf_iff_prefix.mp hpeek)
      simp only [hadvance, inBytes_prev?, inBytes_next?, Checked.ok_bind]
      rfl

@[simp] theorem inBytes_matchesWord (word : Text) : c.inBytes.matchesWord word = .ok (c.matchesWord word) := by
  simp [BytePlace.matchesWord, matchesWord, Bool.and_assoc]

@[simp] theorem inBytes_matchesTerm (word : Text) : c.inBytes.matchesTerm word = .ok (c.matchesTerm word) := by
  simp [BytePlace.matchesTerm, matchesTerm, Bool.and_assoc]

@[simp] theorem inBytes_window (width : Nat) : c.inBytes.window width = .ok (c.window width) := by
  simp only [BytePlace.window, inBytes_rest, Checked.ok_bind]
  exact Text.upTo_byte? (Text.nthByte?_getD width c.rest) (List.take_prefix width c.rest)

@[simp] theorem inBytes_skipWhile : c.inBytes.skipWhile test = .ok (c.skipWhile test).inBytes := by
  have hsize := Text.firstByte?_getD (!test ·) c.rest
  simp only [Bool.not_not] at hsize
  simp only [BytePlace.skipWhile, inBytes_rest, Checked.ok_bind, hsize, skipWhile_eq_advance]
  exact inBytes_advance c _ (List.takeWhile_prefix _)

end Cursor

end Offside
