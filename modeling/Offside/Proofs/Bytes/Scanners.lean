import Offside.Proofs.Bytes.Places
import Offside.Scanner

/-!
# Scanners in bytes

A scanner finds where its match ends by counting bytes: it goes over what it passes by the size of that, and over a word by
the size of the word. `Scanner.stopInBytes` counts so, with a check wherever it moves or takes a part of the text. From the
place of a cursor no check fails, and the match ends where it does in characters.
-/

namespace Offside

namespace BytePlace

variable (b : BytePlace)

/-- The first place before the end where a test holds, from so many bytes past a place on. -/
def firstPlace (test : BytePlace → Checked Bool) : Nat → Text → Checked (Option BytePlace)
  | _, [] => return none
  | i, ch :: rest => do
    let here ← b.advance i
    if ← test here then return some here
    firstPlace test (i + ch.utf8Size) rest

/-- The place of the first closing term, from so many bytes past a place on, when so many opening terms still wait for
theirs. -/
def closingPlace (opener closer : Text) : Nat → Nat → Text → Checked (Option BytePlace)
  | _, _, [] => return none
  | depth, i, ch :: rest => do
    let here ← b.advance i
    if ← here.matchesTerm opener then closingPlace opener closer (depth + 1) (i + ch.utf8Size) rest
    else if ← here.matchesTerm closer then
      match depth with
      | 0 => return some here
      | depth + 1 => closingPlace opener closer depth (i + ch.utf8Size) rest
    else closingPlace opener closer depth (i + ch.utf8Size) rest

/-- The place so many bytes further, if so many are given. -/
def advanceSome : Option Nat → Checked (Option BytePlace)
  | some n => return some (← b.advance n)
  | none => return none

/-- A later place, if it is later. -/
def later (stop : BytePlace) : Option BytePlace :=
  if b.offset < stop.offset then some stop else none

end BytePlace

/-- Where a match of the scanner at a place ends, if there is a match. -/
def Scanner.stopInBytes (scanner : Scanner) (b : BytePlace) : Checked (Option BytePlace) :=
  match scanner with
  | spaceOptional => return some (← b.skipWhile isBlank)
  | spaceRequired => return b.later (← b.skipWhile isBlank)
  | keyword word => do b.advanceSome (if ← b.matchesWord word then some word.utf8Size else none)
  | untilLiteral literal => do b.advanceSome ((← b.rest).literalByte? literal)
  | untilKeyword word => do b.firstPlace (·.matchesWord word) 0 (← b.rest)
  | untilBalanced opener closer => do b.closingPlace opener closer 0 0 (← b.rest)
  | untilChar ch => do b.advanceSome ((← b.rest).firstByte? (· == ch))
  | untilIncluding literal => do b.advanceSome (((← b.rest).literalByte? literal).map (· + literal.utf8Size))
  | untilLineEndsWith word => do
    match (← b.restOfLine).trimEnd.stripSuffix? word with
    | some before => b.advanceSome (if before.getLast?.all isBlank then some before.utf8Size else none)
    | none => return none
  | line => do b.advanceSome (some (← b.restOfLine).utf8Size)
  | untilEnd => do b.advanceSome (some (← b.rest).utf8Size)
  | lineStart => return if ← b.atLineStart then some b else none
  | eof => return if b.isDone then some b else none
  | token => return b.later (← b.skipWhile isTokenChar)

namespace Cursor

variable (c : Cursor)

/-- So many characters further is so many bytes further. -/
theorem inBytes_advanceSome {byte? reach? : Option Nat} (hle : ∀ n, reach? = some n → n ≤ c.rest.length)
    (h : byte? = reach?.map fun n => Text.utf8Size (c.rest.take n)) :
    c.inBytes.advanceSome byte? = .ok (reach?.map fun n => (c.advance n).inBytes) := by
  cases reach? with
  | none =>
    rw [h]
    rfl
  | some n =>
    rw [h, Option.map_some, BytePlace.advanceSome, inBytes_advance_take c (hle n rfl)]
    rfl

theorem utf8Size_concat (passed : Text) (ch : Char) :
    Text.utf8Size (passed ++ [ch]) = passed.utf8Size + ch.utf8Size := by
  simp

section Passed

variable {c} {passed rest : Text} (h : c.rest = passed ++ rest)

include h

/-- Behind what was passed comes the rest. -/
theorem advance_passed : c.advance passed.length = ⟨passed.reverse ++ c.past, rest⟩ := by
  rw [advance, h, List.take_left, List.drop_left]

theorem inBytes_advance_passed : c.inBytes.advance passed.utf8Size = .ok (c.advance passed.length).inBytes :=
  inBytes_advance c passed ⟨rest, h.symm⟩

/-- The places where a test is made are those of the characters. -/
theorem inBytes_firstPlace {test : Cursor → Bool} {check : BytePlace → Checked Bool}
    (hcheck : ∀ d : Cursor, check d.inBytes = .ok (test d)) :
    c.inBytes.firstPlace check passed.utf8Size rest =
      .ok ((firstPlace? test (passed.reverse ++ c.past) rest).map fun n => (c.advance (passed.length + n)).inBytes) := by
  induction rest generalizing passed with
  | nil => rfl
  | cons ch rest ih =>
    have hnext := @ih (passed ++ [ch]) (by rw [h, List.append_assoc]; rfl)
    rw [utf8Size_concat, List.reverse_append] at hnext
    simp only [BytePlace.firstPlace, inBytes_advance_passed h, Checked.ok_bind, hcheck, advance_passed h, firstPlace?]
    cases test ⟨passed.reverse ++ c.past, ch :: rest⟩ with
    | true =>
      simp only [if_true, Option.map_some, Nat.add_zero, advance_passed h]
      rfl
    | false =>
      rw [if_neg Bool.false_ne_true, if_neg Bool.false_ne_true, hnext, Option.map_map]
      simp [Function.comp_def, Nat.add_assoc, Nat.add_comm 1]

theorem inBytes_closingPlace (opener closer : Text) (depth : Nat) :
    c.inBytes.closingPlace opener closer depth passed.utf8Size rest =
      .ok ((closingPlace? opener closer (passed.reverse ++ c.past) depth rest).map fun n =>
        (c.advance (passed.length + n)).inBytes) := by
  induction rest generalizing passed depth with
  | nil => rfl
  | cons ch rest ih =>
    have hnext (depth : Nat) := @ih (passed ++ [ch]) (by rw [h, List.append_assoc]; rfl) depth
    simp only [utf8Size_concat, List.reverse_append, List.length_append, Nat.add_assoc] at hnext
    simp only [BytePlace.closingPlace, inBytes_advance_passed h, Checked.ok_bind, advance_passed h,
      inBytes_matchesTerm, closingPlace?]
    split
    · rw [hnext, Option.map_map]
      simp [Function.comp_def, Nat.add_comm 1]
    · split
      · cases depth with
        | zero =>
          simp only [Option.map_some, Nat.add_zero, advance_passed h]
          rfl
        | succ depth =>
          simp only [hnext, Option.map_map]
          simp [Function.comp_def, Nat.add_comm 1]
      · rw [hnext, Option.map_map]
        simp [Function.comp_def, Nat.add_comm 1]

end Passed

/-- A match that has to get ahead ends behind what it passes. -/
theorem inBytes_later (test : Char → Bool) :
    c.inBytes.later (c.skipWhile test).inBytes =
      (positive? (c.rest.takeWhile test).length).map fun n => (c.advance n).inBytes := by
  rw [BytePlace.later, positive?, inBytes_offset, inBytes_offset, offset_skipWhile, skipWhile_eq_advance]
  by_cases hnil : c.rest.takeWhile test = []
  · simp [hnil]
  · have hsize : Text.utf8Size (c.rest.takeWhile test) ≠ 0 := fun h => hnil (Text.utf8Size_eq_zero.mp h)
    have hlength : (c.rest.takeWhile test).length ≠ 0 := fun h => hnil (List.length_eq_zero_iff.mp h)
    rw [if_pos (by omega), if_neg hlength]
    rfl

/-- What comes next takes up the bytes of so many characters. -/
theorem utf8Size_take {c : Cursor} {w : Text} (h : w <+: c.rest) :
    w.utf8Size = Text.utf8Size (c.rest.take w.length) := by
  rw [← List.prefix_iff_eq_take.mp h]

/-- What comes before a word that ends the line comes next. -/
theorem before_isPrefix {c : Cursor} {word before : Text} (h : c.restOfLine.trimEnd.stripSuffix? word = some before) :
    before <+: c.rest := by
  have hbefore : before <+: c.restOfLine.trimEnd := ⟨word, (Text.stripSuffix?_eq_some h).symm⟩
  exact hbefore.trans ((Text.trimEnd_isPrefix c.restOfLine).trans (List.takeWhile_prefix _))

/-- From the place of a cursor a scanner matches in bytes as it does in characters. -/
theorem inBytes_stopInBytes (scanner : Scanner) :
    scanner.stopInBytes c.inBytes = .ok ((scanner.reach? c).map fun n => (c.advance n).inBytes) := by
  have hle (n : Nat) (hn : scanner.reach? c = some n) : n ≤ c.rest.length := Scanner.reach?_le hn
  cases scanner with
  | spaceOptional => simp [Scanner.stopInBytes, Scanner.reach?, skipWhile_eq_advance]
  | spaceRequired => simp [Scanner.stopInBytes, Scanner.reach?, inBytes_later]
  | keyword word =>
    simp only [Scanner.stopInBytes, Scanner.reach?, inBytes_matchesWord, Checked.ok_bind]
    refine inBytes_advanceSome c hle ?_
    split
    · next hword =>
      have hpeek : c.peek word := by simp_all [matchesWord]
      rw [utf8Size_take (List.isPrefixOf_iff_prefix.mp hpeek)]
      rfl
    · rfl
  | untilLiteral literal =>
    simp only [Scanner.stopInBytes, Scanner.reach?, inBytes_rest, Checked.ok_bind]
    exact inBytes_advanceSome c hle (Text.literalByte?_eq c.rest literal)
  | untilKeyword word =>
    have hplace := @inBytes_firstPlace c [] c.rest rfl (·.matchesWord word) (·.matchesWord word)
      (inBytes_matchesWord · word)
    simpa [Scanner.stopInBytes, Scanner.reach?] using hplace
  | untilBalanced opener closer =>
    have hplace := @inBytes_closingPlace c [] c.rest rfl opener closer 0
    simpa [Scanner.stopInBytes, Scanner.reach?] using hplace
  | untilChar ch =>
    simp only [Scanner.stopInBytes, Scanner.reach?, inBytes_rest, Checked.ok_bind]
    exact inBytes_advanceSome c hle (Text.firstByte?_eq ch c.rest)
  | untilIncluding literal =>
    simp only [Scanner.stopInBytes, Scanner.reach?, inBytes_rest, Checked.ok_bind]
    refine inBytes_advanceSome c hle ?_
    rw [Text.literalByte?_eq, Option.map_map, Option.map_map]
    refine Option.map_congr fun n hn => ?_
    obtain ⟨-, hliteral⟩ := Text.indexOf?_eq_some hn
    rw [Function.comp_apply, Function.comp_apply, List.take_add, Text.utf8Size_append,
      ← List.prefix_iff_eq_take.mp hliteral]
  | untilLineEndsWith word =>
    simp only [Scanner.stopInBytes, Scanner.reach?, inBytes_restOfLine, Checked.ok_bind] at hle ⊢
    cases hbefore : c.restOfLine.trimEnd.stripSuffix? word with
    | none => rfl
    | some before =>
      simp only [hbefore] at hle ⊢
      refine inBytes_advanceSome c hle ?_
      rw [utf8Size_take (before_isPrefix hbefore)]
      split <;> rfl
  | line =>
    simp only [Scanner.stopInBytes, Scanner.reach?, inBytes_restOfLine, Checked.ok_bind]
    refine inBytes_advanceSome c hle ?_
    have hline : c.restOfLine <+: c.rest := List.takeWhile_prefix _
    rw [utf8Size_take hline]
    rfl
  | untilEnd =>
    simp only [Scanner.stopInBytes, Scanner.reach?, inBytes_rest, Checked.ok_bind]
    refine inBytes_advanceSome c hle ?_
    simp
  | lineStart =>
    simp only [Scanner.stopInBytes, Scanner.reach?, inBytes_atLineStart, Checked.ok_bind]
    split <;> rfl
  | eof =>
    simp only [Scanner.stopInBytes, Scanner.reach?, inBytes_isDone]
    split <;> rfl
  | token => simp [Scanner.stopInBytes, Scanner.reach?, inBytes_later]

end Cursor

end Offside
