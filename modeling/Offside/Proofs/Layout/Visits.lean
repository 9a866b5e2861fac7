import Mathlib.Logic.Function.Iterate
import Offside.Proofs.Bytes.Places
import Offside.Proofs.Layout.Extents
import Offside.Proofs.Layout.InStep

/-!
# Going from line to line

`nextLine` jumps over any number of blank lines by looking for a visible character, without looking at lines. Done again and
again it still visits just the places where the lines below open, each once and in order, up to the end of the text. So a
scan of lines asks for the indentation only where there is one, and stops at one of these places.
-/

namespace Offside

namespace Cursor

variable {c d : Cursor}

/-! ## Lines by their numbers -/

/-- A later place is on no earlier line. -/
theorem line_le_of_le (h : c ≤ d) : c.line ≤ d.line := by
  obtain ⟨passed, -, hpast⟩ := h
  rw [line, line, hpast, List.count_append]
  omega

/-- Of two places in one text, the one on the earlier line is before the other. -/
theorem le_of_line_lt (htext : d.text = c.text) (hline : c.line < d.line) : c ≤ d := by
  rcases lt_or_le_of_text_eq htext with hlt | hle
  · exact absurd hline (Nat.not_lt.mpr (line_le_of_le hlt.le))
  · exact hle

/-- A line opens below a place just if it has a larger number than the line of the place. -/
theorem below_iff_line_lt (hle : c ≤ d) (hopens : d.OpensLine) : c.Below d ↔ c.line < d.line := by
  constructor
  · intro hbelow
    obtain ⟨e, hce, ⟨passed, hrest, hpast⟩, hnewline⟩ := hbelow.exists_newline hle
    have hpassed : passed = '\n' :: d.lead.reverse := by
      rw [hnewline, ← List.cons_append] at hrest
      exact (List.append_cancel_right hrest).symm
    refine Nat.lt_of_le_of_lt (line_le_of_le hce) ?_
    rw [line, line, hpast, hpassed, List.count_append, List.reverse_cons, List.count_append, List.count_singleton_self]
    omega
  · intro hline
    refine ⟨hopens, ?_⟩
    obtain ⟨passed, hrest, hpast⟩ := hle
    have hnewline : '\n' ∈ passed.reverse := by
      rw [line, line, hpast, List.count_append] at hline
      exact List.count_pos_iff.mp (by omega)
    have hdrop : passed.reverse.dropWhile (· != '\n') ≠ [] := fun hnil => by
      simpa using List.dropWhile_eq_nil_iff.mp hnil '\n' hnewline
    -- The lead of the later place ends at a newline that is passed.
    have hlead : d.lead.length < passed.length := by
      have hsum := congrArg List.length (List.takeWhile_append_dropWhile (p := (· != '\n')) (l := passed.reverse))
      have hpos := List.length_pos_iff.mpr hdrop
      rw [List.length_append, List.length_reverse] at hsum
      rw [lead, hpast, takeWhile_append_of_dropWhile_ne_nil hdrop]
      omega
    rw [hrest, List.length_append]
    omega

/-- The places where the lines below a place open are the first visible characters of the lines with larger numbers. -/
theorem below_iff : c ≤ d ∧ c.Below d ↔ d.text = c.text ∧ c.line < d.line ∧ d.next?.any (!isBlank ·) ∧ d.lead.all isBlank := by
  constructor
  · rintro ⟨hle, hbelow⟩
    exact ⟨text_eq_of_le hle, (below_iff_line_lt hle hbelow.1).mp hbelow, opensLine_iff.mp hbelow.1⟩
  · rintro ⟨htext, hline, hopens⟩
    have hle := le_of_line_lt htext hline
    exact ⟨hle, (below_iff_line_lt hle (opensLine_iff.mpr hopens)).mpr hline⟩

/-! ## One step -/

/-- Before the end of the text, the next line is ahead. -/
theorem lt_nextLine_of_not_isDone (h : ¬c.isDone) : c < c.nextLine := by
  obtain ⟨ch, rest, hrest⟩ := List.exists_cons_of_ne_nil (mt isDone_iff.mpr h)
  refine lt_iff.mpr ⟨le_nextLine c, ?_⟩
  by_cases hch : ch = '\n'
  · have hline : c.skipWhile (· != '\n') = c := skipWhile_eq_self (by simp [next?, hrest, hch])
    rw [nextLine, hline]
    exact length_rest_skipWhile_lt hrest (by rw [hch]; decide)
  · exact Nat.lt_of_le_of_lt (length_rest_skipWhile_le _ _) (length_rest_skipWhile_lt hrest (by simpa using hch))

/-- The lines below a place are the next line and those below that. -/
theorem below_iff_nextLine :
    c ≤ d ∧ c.Below d ↔ ¬c.nextLine.isDone ∧ (d = c.nextLine ∨ c.nextLine ≤ d ∧ c.nextLine.Below d) := by
  constructor
  · rintro ⟨hle, hbelow⟩
    have hnext := nextLine_le hle hbelow
    obtain ⟨hvisible, -⟩ := opensLine_iff.mp hbelow.1
    have hdone : ¬c.nextLine.isDone := fun hdone => by
      rw [eq_of_isDone_of_le hdone hnext, next?, isDone_iff.mp hdone] at hvisible
      cases hvisible
    have hopens := (nextLine_isDone_or_below c).resolve_left hdone
    refine ⟨hdone, (eq_or_lt_of_le hnext).imp id fun hlt => ⟨hnext, ?_⟩⟩
    exact below_of_lt hbelow.1 (opensLine_iff.mp hopens.1).1 hlt
  · rintro ⟨hdone, rfl | ⟨hle, hbelow⟩⟩
    · exact ⟨le_nextLine c, (nextLine_isDone_or_below c).resolve_left hdone⟩
    · exact ⟨le_trans (le_nextLine c) hle, hbelow.of_le (le_nextLine c)⟩

/-! ## Step by step -/

/-- From a place on, so many steps lead from line to line: each gets ahead, the last reaches the end of the text, and the
others stop where the lines below open. -/
structure Visits (c : Cursor) (n : Nat) : Prop where
  /-- The last step reaches the end. -/
  ends : (nextLine^[n] c).isDone
  /-- Each step gets ahead. -/
  ahead : ∀ i < n, nextLine^[i] c < nextLine^[i + 1] c
  /-- The steps before the last lead to the lines below. -/
  below : ∀ d, c ≤ d ∧ c.Below d ↔ ∃ i, 0 < i ∧ i < n ∧ nextLine^[i] c = d

/-- Step after step the end is reached, with no more steps than there are characters left. -/
theorem exists_visits (c : Cursor) : ∃ n ≤ c.rest.length, c.Visits n := by
  induction hlen : c.rest.length using Nat.strong_induction_on generalizing c with
  | _ len ih =>
    by_cases hdone : c.isDone
    · refine ⟨0, Nat.zero_le _, hdone, fun i hi => absurd hi (Nat.not_lt_zero i), fun d => ⟨fun h => ?_, ?_⟩⟩
      · have hshort := h.2.2
        simp [isDone_iff.mp hdone] at hshort
      · rintro ⟨i, -, hi, -⟩
        exact absurd hi (Nat.not_lt_zero i)
    · have hlt := lt_nextLine_of_not_isDone hdone
      have hshort := (lt_iff.mp hlt).2
      obtain ⟨n, hn, hends, hahead, hbelow⟩ := ih _ (hlen ▸ hshort) c.nextLine rfl
      refine ⟨n + 1, by omega, hends, fun i hi => ?_, fun d => ?_⟩
      · cases i with
        | zero => exact hlt
        | succ i => exact hahead i (by omega)
      · have hpos : ¬c.nextLine.isDone ↔ 0 < n := by
          cases n with
          | zero => simpa using hends
          | succ n => simpa using fun hdone => not_lt_of_isDone hdone (hahead 0 (Nat.succ_pos n))
        rw [below_iff_nextLine, hbelow, hpos]
        constructor
        · rintro ⟨hn, rfl | ⟨i, -, hi, rfl⟩⟩
          · exact ⟨1, Nat.one_pos, by omega, rfl⟩
          · exact ⟨i + 1, Nat.succ_pos i, by omega, rfl⟩
        · rintro ⟨i, hi, hin, rfl⟩
          obtain ⟨i, rfl⟩ := Nat.exists_eq_succ_of_ne_zero hi.ne'
          refine ⟨by omega, i.eq_zero_or_pos.imp ?_ fun hi => ⟨i, hi, by omega, rfl⟩⟩
          rintro rfl
          rfl

namespace Visits

variable {n : Nat}

/-- More steps lead further on. -/
theorem lt (h : c.Visits n) {i j : Nat} (hij : i < j) (hj : j ≤ n) : nextLine^[i] c < nextLine^[j] c := by
  induction j, hij using Nat.le_induction with
  | base => exact h.ahead i hj
  | succ j _ ih => exact lt_trans (ih (by omega)) (h.ahead j hj)

/-- Only the last step reaches the end. -/
theorem eq_of_isDone (h : c.Visits n) {i : Nat} (hi : i ≤ n) (hdone : (nextLine^[i] c).isDone) : i = n :=
  hi.eq_or_lt.resolve_right fun hlt => not_lt_of_isDone hdone (h.lt hlt (Nat.le_refl n))

/-- A step before the last leads to where a line opens. -/
theorem opensLine (h : c.Visits n) {i : Nat} (hi : 0 < i) (hin : i < n) : (nextLine^[i] c).OpensLine :=
  ((h.below _).mpr ⟨i, hi, hin, rfl⟩).2.1

end Visits

/-- A scan of lines passes one line after the other, up to the end or to the first whose indentation fails the test. -/
theorem skipLines_eq_iterate (keep : Nat → Bool) (h : c.Fresh) :
    ∃ i, c.skipLines keep = .ok (nextLine^[i] c) ∧
      (∀ j < i, (nextLine^[j] c).OpensLine ∧ keep (nextLine^[j] c).lead.length) ∧
      ((nextLine^[i] c).isDone ∨ keep (nextLine^[i] c).lead.length = false) := by
  fun_induction skipLines keep c with
  | case1 c hdone => exact ⟨0, rfl, fun j hj => absurd hj (Nat.not_lt_zero j), Or.inl hdone⟩
  | case2 c hdone fault hl =>
    obtain ⟨level, hok⟩ := h.resolve_left hdone
    simp [hl] at hok
  | case3 c hdone level hl hk ih =>
    obtain ⟨i, hstop, hkeep, hend⟩ := ih (nextLine_fresh c)
    obtain ⟨-, -, rfl⟩ := indentLevel_eq_ok_iff.mp hl
    refine ⟨i + 1, hstop, fun j hj => ?_, hend⟩
    cases j with
    | zero => exact ⟨⟨_, hl⟩, hk⟩
    | succ j => exact hkeep j (by omega)
  | case4 c hdone level hl hk =>
    obtain ⟨-, -, rfl⟩ := indentLevel_eq_ok_iff.mp hl
    exact ⟨0, rfl, fun j hj => absurd hj (Nat.not_lt_zero j), Or.inr (by simpa using hk)⟩

/-- The scan from the next line on stops after one of the steps: the first that leads to a line whose indentation fails the
test, or the last. -/
theorem Visits.skipLines {n : Nat} (h : c.Visits n) (keep : Nat → Bool) :
    ∃ i ≤ n, c.nextLine.skipLines keep = .ok (nextLine^[i] c) ∧
      (∀ j, 0 < j → j < i → keep (nextLine^[j] c).lead.length) ∧
      (i = n ∨ 0 < i ∧ keep (nextLine^[i] c).lead.length = false) := by
  by_cases hdone : c.isDone
  · obtain rfl : 0 = n := h.eq_of_isDone (Nat.zero_le n) hdone
    have hnext : c.nextLine = c := eq_of_isDone_of_le hdone (le_nextLine c)
    exact ⟨0, Nat.le_refl 0, by rw [hnext]; exact skipLines_of_isDone hdone, fun j _ hj => absurd hj (Nat.not_lt_zero j),
      Or.inl rfl⟩
  · obtain ⟨i, hstop, hkeep, hend⟩ := skipLines_eq_iterate keep (nextLine_fresh c)
    have hn : 0 < n := Nat.pos_of_ne_zero fun hn => by
      subst hn
      exact hdone h.ends
    have hi : i + 1 ≤ n := by
      -- A scan that went on past the last step would have passed a line that opens at the end.
      by_contra hi
      obtain ⟨ch, rest, hrest, -⟩ := next?_of_indentLevel_eq_ok (hkeep (n - 1) (by omega)).1.choose_spec
      have hlast := isDone_iff.mp h.ends
      rw [← Nat.sub_add_cancel hn, Function.iterate_succ_apply, hrest] at hlast
      cases hlast
    refine ⟨i + 1, hi, hstop, fun j hj hji => ?_, hend.imp (h.eq_of_isDone hi) fun hfail => ⟨Nat.succ_pos i, hfail⟩⟩
    obtain ⟨j, rfl⟩ := Nat.exists_eq_succ_of_ne_zero hj.ne'
    exact (hkeep j (by omega)).2

end Cursor

open Cursor

/-- Lines are visited once and in order. From any place, going to the next line again and again has larger and larger
offsets up to the end of the text, which is reached after no more steps than there are characters left. Before the end it
leads just to the first visible characters of the later lines that have one, and there the indentation is the number of
characters since the last newline. A scan of lines never faults: it stops after the first step that leads to a line whose
indentation fails the test, or at the end. -/
theorem lines_are_visited_in_order (c : Cursor) :
    ∃ n ≤ c.rest.length, (nextLine^[n] c).isDone ∧
      (∀ i j, i < j → j ≤ n → (nextLine^[i] c).offset < (nextLine^[j] c).offset) ∧
      (∀ d : Cursor, d.text = c.text ∧ c.line < d.line ∧ d.next?.any (!isBlank ·) ∧ d.lead.all isBlank ↔
        ∃ i, 0 < i ∧ i < n ∧ nextLine^[i] c = d) ∧
      (∀ i, 0 < i → i < n → (nextLine^[i] c).indentLevel = .ok (nextLine^[i] c).lead.length) ∧
      ∀ keep, ∃ i ≤ n, c.nextLine.skipLines keep = .ok (nextLine^[i] c) ∧
        (∀ j, 0 < j → j < i → keep (nextLine^[j] c).lead.length) ∧
        (i = n ∨ 0 < i ∧ keep (nextLine^[i] c).lead.length = false) := by
  obtain ⟨n, hn, h⟩ := c.exists_visits
  refine ⟨n, hn, h.ends, fun i j hij hj => offset_lt_of_lt (h.lt hij hj), fun d => ?_, fun i hi hin => ?_, h.skipLines⟩
  · rw [← below_iff, h.below]
  · obtain ⟨hnext, hlead⟩ := opensLine_iff.mp (h.opensLine hi hin)
    exact indentLevel_eq_ok_iff.mpr ⟨hnext, hlead, rfl⟩

/-- From within the first line the places visited are those of the `b`, past a blank line, and of the `c`: no other place on a
later line is its first visible character. -/
theorem lines_are_visited_in_order_two_lines :
    nextLine^[3] ⟨['a'], " x\n \t\n  b y\nc\n".toList⟩ = ⟨"a x\n \t\n  b y\nc\n".toList.reverse, []⟩ ∧
      ∀ d : Cursor, d.text = "a x\n \t\n  b y\nc\n".toList ∧ 1 < d.line ∧ d.next?.any (!isBlank ·) ∧ d.lead.all isBlank →
        d = ⟨"a x\n \t\n  ".toList.reverse, "b y\nc\n".toList⟩ ∨ d = ⟨"a x\n \t\n  b y\n".toList.reverse, "c\n".toList⟩ := by
  refine ⟨by decide, fun d hd => ?_⟩
  obtain ⟨n, -, -, hahead, hvisits, -⟩ := lines_are_visited_in_order ⟨['a'], " x\n \t\n  b y\nc\n".toList⟩
  have hn : n ≤ 3 := by
    by_contra hmore
    exact absurd (hahead 3 4 (by decide) (by omega)) (by decide)
  obtain ⟨i, hi, hin, rfl⟩ := (hvisits d).mp hd
  obtain rfl | rfl : i = 1 ∨ i = 2 := by omega
  · exact Or.inl (by decide)
  · exact Or.inr (by decide)

end Offside
