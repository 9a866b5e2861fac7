import Offside.Proofs.Canonical.Pairing
import Offside.Proofs.Grammar.Noise
import Offside.Proofs.Node.WellFormed
import Offside.Proofs.Parser.Matching

/-!
# Where blocks open

A block opens at its first word. The noise before an expression ends there, because no word of a program begins a comment,
a header or a signature; and the lines at the level of that word are the block.
-/

namespace Offside

/-- A symbol is no match for a letter, a digit or `_`. -/
theorem Cursor.matchesWord_of_next {c : Cursor} {kw : Text} (hc : c.next?.any isWordChar)
    (hkw : kw.head?.any isWordChar = false) : c.matchesWord kw = false := by
  by_contra h
  obtain ⟨rest, hrest, hne⟩ := rest_of_matchesWord (by simpa using h)
  cases kw with
  | nil => exact hne rfl
  | cons ch kw =>
    rw [next?, hrest] at hc
    simp_all

namespace Canonical

open Offside.Parser Cursor

/-! ## Words between blanks -/

/-- Beside a word comes a blank or nothing. -/
def Gap (t : Text) : Prop :=
  t.head?.all isBlank

theorem Gap.apart {t : Text} (h : Gap t) : Apart t := by
  cases t with
  | nil => rfl
  | cons ch t =>
    have hblank : isBlank ch := by simpa [Gap] using h
    by_contra hword
    have hch : isWordChar ch := by simpa [Apart] using hword
    rw [isBlank_of_isWordChar hch] at hblank
    cases hblank

theorem gap_nil : Gap [] := rfl

theorem gap_blank (t : Text) : Gap (' ' :: t) := rfl

theorem gap_newline (t : Text) : Gap ('\n' :: t) := rfl

theorem gap_of_all {s : Text} (hs : s.all isBlank) : Gap s := by
  cases s with
  | nil => rfl
  | cons ch s =>
    rw [List.all_cons, Bool.and_eq_true] at hs
    exact hs.1

theorem gap_append {s t : Text} (hs : s.all isBlank) (ht : Gap t) : Gap (s ++ t) := by
  cases s with
  | nil => exact ht
  | cons ch s =>
    rw [List.all_cons, Bool.and_eq_true] at hs
    exact hs.1

theorem gap_of_atStart {past : Text} (h : AtStart past) : Gap past := by
  cases past with
  | nil => rfl
  | cons ch past =>
    obtain rfl : ch = '\n' := by simpa [AtStart] using h
    rfl

theorem gap_words (ws : List Text) {t : Text} (ht : Gap t) : Gap (ws.flatMap (' ' :: ·) ++ t) := by
  cases ws with
  | nil => exact ht
  | cons w ws => exact gap_blank _

theorem Ident.word (i : Ident) : Word i.name :=
  ⟨i.name_ne_nil, List.all_eq_true.mp i.all_isWordChar⟩

theorem Ident.ne_of_mem_reserved (i : Ident) {kw : Text} (h : kw ∈ reserved) : kw ≠ i.name := by
  rintro rfl
  exact i.not_reserved h

/-- A word begins with a letter, a digit or `_`. -/
theorem Word.head? {w : Text} (hw : Word w) (t : Text) : (w ++ t).head?.any isWordChar := by
  obtain ⟨ch, w, rfl⟩ := List.exists_cons_of_ne_nil hw.1
  exact hw.2 ch (by simp)

/-- A word is visible. -/
theorem Word.head?_not_isBlank {w : Text} (hw : Word w) (t : Text) : (w ++ t).head?.all (!isBlank ·) := by
  obtain ⟨ch, w, rfl⟩ := List.exists_cons_of_ne_nil hw.1
  have hch := isBlank_of_isWordChar (hw.2 ch (by simp))
  simp [hch]

section Keywords

variable {kw w past t : Text} (hw : Word w) (hpast : Gap past) (ht : Gap t)

include hw hpast ht

theorem matchesWord_self : (Cursor.mk past (w ++ t)).matchesWord w :=
  matchesWord_of_blanks hw.1 hpast ht

theorem matchesWord_other (hkw : kw ∈ reserved) (hne : kw ≠ w) : (Cursor.mk past (w ++ t)).matchesWord kw = false :=
  matchesWord_of_ne (word_of_mem_reserved hkw) hw.2 hpast.apart ht.apart hne

end Keywords

/-! ## Noise -/

section Noise

variable {call : Rule → Cursor → Outcome Node} {w past t : Text}

theorem miss_comment {c : Cursor} (hc : c.next?.any isWordChar) : Grammar.comment.runWith call c = .miss := by
  refine miss_firstOf_iff.mpr fun p hp => ?_
  simp only [List.mem_cons, List.not_mem_nil, or_false] at hp
  rcases hp with rfl | rfl | rfl
  · exact miss_seq (miss_keyword (matchesWord_of_next hc (by decide)))
  · exact miss_seq (miss_keyword (matchesWord_of_next hc (by decide)))
  · exact miss_seq (miss_keyword (matchesWord_of_next hc (by decide)))

theorem miss_keywordBlock {c : Cursor} {word : String} (h : c.matchesWord word.toList = false) :
    (keywordBlock word).runWith call c = .miss :=
  miss_onlyIf (miss_lineStart_andThen (miss_keyword h))

/-- A word is a token. -/
theorem Word.token (hw : Word w) : Text.Token w :=
  ⟨hw.1, fun ch hch => isTokenChar_of_isWordChar (hw.2 ch hch)⟩

/-- A token does not go on over a blank. -/
theorem Gap.head?_not_isTokenChar (ht : Gap t) : t.head?.all (!isTokenChar ·) := by
  cases t with
  | nil => rfl
  | cons ch t =>
    have hblank : isBlank ch := by simpa [Gap] using ht
    simp [isTokenChar, hblank]

/-- What is no token character is no letter, digit or `_`. -/
theorem apart_of_not_isTokenChar (ht : t.head?.all (!isTokenChar ·)) : Apart t := by
  cases t with
  | nil => rfl
  | cons ch t =>
    by_contra hword
    have hch : isTokenChar ch := isTokenChar_of_isWordChar (by simpa [Apart] using hword)
    simp [hch] at ht

/-- The next visible character is no colon. -/
def NoColon (t : Text) : Prop :=
  (t.dropWhile isBlank).head?.all (· != ':')

theorem miss_signatureExtent (hw : Word w) (ht : t.head?.all (!isTokenChar ·)) (hcolon : NoColon t) :
    Grammar.signatureExtent.runWith call ⟨past, w ++ t⟩ = .miss := by
  have hno : ((Cursor.mk (w.reverse ++ past) t).skipWhile isBlank).matchesWord ":".toList = false := by
    by_contra h
    obtain ⟨rest, hrest, -⟩ := rest_of_matchesWord (by simpa using h)
    have hhead : (t.dropWhile isBlank).head? = some ':' := congrArg List.head? hrest
    rw [NoColon, hhead] at hcolon
    cases hcolon
  refine miss_onlyIf (miss_lineStart_andThen ?_)
  exact miss_seq_of_hit (hit_token hw.1 hw.token.all ht) (miss_seq_of_hit hit_spaceOptional (miss_seq (miss_keyword hno)))

/-- A word at which no noise begins: none that a header or an import begins with, and not the name of a signature. -/
theorem miss_noise (hw : Word w) (hmodule : "module".toList ≠ w) (himport : "import".toList ≠ w) (hpast : Gap past)
    (ht : t.head?.all (!isTokenChar ·)) (hcolon : NoColon t) : Grammar.noise.runWith call ⟨past, w ++ t⟩ = .miss := by
  have hother {kw : Text} (hkw : kw ∈ reserved) (hne : kw ≠ w) : (Cursor.mk past (w ++ t)).matchesWord kw = false :=
    matchesWord_of_ne (word_of_mem_reserved hkw) hw.2 hpast.apart (apart_of_not_isTokenChar ht) hne
  refine miss_firstOf_iff.mpr fun p hp => ?_
  simp only [List.mem_cons, List.not_mem_nil, or_false] at hp
  rcases hp with rfl | rfl | rfl | rfl | rfl
  · exact miss_spaceRequired (hw.head?_not_isBlank t)
  · exact miss_comment (hw.head? t)
  · exact miss_keywordBlock (hother (by decide) hmodule)
  · exact miss_keywordBlock (hother (by decide) himport)
  · exact miss_signatureExtent hw ht hcolon

/-- Before such a word the noise is the blanks. -/
theorem hit_skipNoise {c : Cursor} (hc : c.skipWhile isBlank = ⟨past, w ++ t⟩) (hw : Word w)
    (hmodule : "module".toList ≠ w) (himport : "import".toList ≠ w) (hpast : Gap past)
    (ht : t.head?.all (!isTokenChar ·)) (hcolon : NoColon t) : Grammar.skipNoise.runWith call c = .hit ⟨past, w ++ t⟩ () := by
  have hmiss : Grammar.noise.runWith call ⟨past, w ++ t⟩ = .miss := miss_noise hw hmodule himport hpast ht hcolon
  have hstop := repeatFrom_of_miss hmiss
  by_cases hnext : c.next?.all (!isBlank ·)
  · rw [skipWhile_eq_self hnext] at hc
    subst hc
    simp only [Grammar.skipNoise, runWith, hstop, Outcome.bind]
  · have hblank : c.next?.any isBlank := by
      cases hn : c.next? <;> simp_all
    have hstep : Grammar.noise.runWith call c = .hit ⟨past, w ++ t⟩ () := by
      rw [← hc]
      exact firstOf_of_hit (hit_spaceRequired hblank)
    have hlt : (Cursor.mk past (w ++ t)).rest.length < c.rest.length := by
      rw [← hc]
      cases hr : c.rest with
      | nil => simp [next?, hr] at hblank
      | cons ch rest =>
        rw [← hr]
        exact length_rest_skipWhile_lt hr (by simpa [next?, hr] using hblank)
    simp only [Grammar.skipNoise, runWith, repeatFrom_of_lt hstep hlt, hstop, Outcome.bind]

/-- At the end of the text there is no noise. -/
theorem hit_skipNoise_nil : Grammar.skipNoise.runWith call ⟨past, []⟩ = .hit ⟨past, []⟩ () := by
  have hle := Grammar.le_noiseStop ⟨past, []⟩
  rw [Grammar.skipNoise_eq_hit, eq_of_isDone_of_le rfl hle]

end Noise

end Canonical

end Offside
