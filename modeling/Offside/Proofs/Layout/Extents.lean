import Offside.Parser.Run
import Offside.Proofs.Layout.Lines

/-!
# Where blocks and levels stop

The scan of lines looks at every later visible line, at its first visible character and in order, and stops at the first
whose indentation fails the test: `FirstBelow`. So `blocks_are_exact` says for every place where a block or a level stops,
or why it faults.
-/

namespace Offside

namespace Cursor

variable {c d stop : Cursor}

/-! ## From line to line -/

/-- A run of characters that satisfy a test stops where one does not. -/
theorem takeWhile_append_of_dropWhile_ne_nil {α : Type} {s t : List α} {test : α → Bool} (h : s.dropWhile test ≠ []) :
    (s ++ t).takeWhile test = s.takeWhile test := by
  rw [List.takeWhile_append, if_neg]
  intro hlen
  have hsum := congrArg List.length (List.takeWhile_append_dropWhile (p := test) (l := s))
  rw [List.length_append, hlen] at hsum
  exact h (List.length_eq_zero_iff.mp (by omega))

/-- Going past what satisfies a test does not go past a character that does not. -/
theorem skipWhile_le {test : Char → Bool} (hle : c ≤ d) (hnext : d.next?.any (!test ·)) : c.skipWhile test ≤ d := by
  obtain ⟨passed, hrest, hpast⟩ := hle
  have hsplit : passed.takeWhile test ++ passed.dropWhile test = passed := List.takeWhile_append_dropWhile
  have hhead : d.rest.head?.all (!test ·) := by
    cases h : d.rest <;> simp_all [next?]
  obtain ⟨htake, hdrop⟩ := takeWhile_of_head? hhead
  by_cases hall : passed.dropWhile test = []
  · have hpassed : ∀ ch ∈ passed, test ch := List.dropWhile_eq_nil_iff.mp hall
    refine ⟨[], ?_, ?_⟩
    · rw [skipWhile, hrest, List.dropWhile_append_of_pos hpassed, hdrop, List.nil_append]
    · rw [skipWhile, hrest, List.takeWhile_append_of_pos hpassed, htake, hpast, List.append_nil]
      rfl
  · refine ⟨passed.dropWhile test, ?_, ?_⟩
    · rw [skipWhile, hrest, List.dropWhile_append]
      simp [hall]
    · rw [skipWhile, hrest, takeWhile_append_of_dropWhile_ne_nil hall, hpast, ← List.append_assoc, ← List.reverse_append,
        hsplit]

/-- Before a line that opens below a place there is a newline, at the place or later. -/
theorem Below.exists_newline (hle : c ≤ d) (h : c.Below d) :
    ∃ e, c ≤ e ∧ e ≤ d ∧ e.rest = '\n' :: (d.lead.reverse ++ d.rest) := by
  obtain ⟨passed, hrest, hpast⟩ := hle
  have hlen : d.lead.length < passed.length := by
    have hlt := h.2
    rw [hrest, List.length_append] at hlt
    omega
  -- The lead ends within what is passed, so it ends at a newline there.
  have hdrop : passed.reverse.dropWhile (· != '\n') ≠ [] := by
    intro hnil
    rw [lead, hpast, List.takeWhile_append_of_pos (List.dropWhile_eq_nil_iff.mp hnil), List.length_append,
      List.length_reverse] at hlen
    omega
  obtain ⟨ch, before, hsplit⟩ := List.exists_cons_of_ne_nil hdrop
  obtain rfl : ch = '\n' := by
    have hhead := List.head_dropWhile_not (· != '\n') hdrop
    simpa [hsplit] using hhead
  have hpassed : passed = before.reverse ++ '\n' :: d.lead.reverse := by
    have hlead : d.lead = passed.reverse.takeWhile (· != '\n') := by
      rw [lead, hpast, takeWhile_append_of_dropWhile_ne_nil hdrop]
    have hsum := congrArg List.reverse (List.takeWhile_append_dropWhile (p := (· != '\n')) (l := passed.reverse))
    rw [← hlead, hsplit] at hsum
    simpa using hsum.symm
  refine ⟨⟨before ++ c.past, '\n' :: (d.lead.reverse ++ d.rest)⟩, ⟨before.reverse, ?_, ?_⟩, ⟨'\n' :: d.lead.reverse, ?_, ?_⟩,
    rfl⟩
  · simp [hrest, hpassed]
  · simp
  · simp
  · simp [hpast, hpassed]

/-- The next line is no later than any line that opens below. -/
theorem nextLine_le (hle : c ≤ d) (h : c.Below d) : c.nextLine ≤ d := by
  obtain ⟨e, hce, hed, hrest⟩ := h.exists_newline hle
  have hline : c.skipWhile (· != '\n') ≤ e := skipWhile_le hce (by simp [next?, hrest])
  exact skipWhile_le (le_trans hline hed) (opensLine_iff.mp h.1).1

/-- A line that opens after a visible character opens below it. -/
theorem below_of_lt (hopens : d.OpensLine) (hnext : c.next?.any (!isBlank ·)) (hlt : c < d) : c.Below d := by
  obtain ⟨⟨passed, hrest, hpast⟩, hshort⟩ := lt_iff.mp hlt
  refine ⟨hopens, ?_⟩
  cases passed with
  | nil => simp [hrest] at hshort
  | cons ch passed =>
    have hch : isBlank ch = false := by simpa [next?, hrest] using hnext
    have hlead : d.lead.length ≤ passed.length := by
      by_cases hall : passed.reverse.dropWhile (· != '\n') = []
      · -- Then the visible character would be before the later place on its line.
        have hline := ne_newline_of_not_isBlank hch
        have hlead : d.lead = passed.reverse ++ ch :: c.past.takeWhile (· != '\n') := by
          rw [lead, hpast, List.reverse_cons, List.append_assoc,
            List.takeWhile_append_of_pos (List.dropWhile_eq_nil_iff.mp hall), List.singleton_append,
            List.takeWhile_cons, if_pos hline]
        have hblank := List.all_eq_true.mp (opensLine_iff.mp hopens).2 ch (by simp [hlead])
        rw [hch] at hblank
        cases hblank
      · rw [lead, hpast, List.reverse_cons, List.append_assoc, takeWhile_append_of_dropWhile_ne_nil hall]
        simpa using (List.takeWhile_sublist (· != '\n') (l := passed.reverse)).length_le
    rw [hrest, List.length_append, List.length_cons]
    omega

/-! ## Where a scan stops -/

/-- The place where the first line below opens whose indentation satisfies a test, or the end of the text where there is
no such line. -/
structure FirstBelow (c : Cursor) (test : Nat → Prop) (stop : Cursor) : Prop where
  /-- It is a later place of the text. -/
  le : c ≤ stop
  /-- It is the end, or a line opens there whose indentation satisfies the test. -/
  here : stop.isDone ∨ c.Below stop ∧ test stop.lead.length
  /-- No such line opens before. -/
  first : ∀ d, c ≤ d → c.Below d → test d.lead.length → stop ≤ d

/-- The scan stops at the first place, from where it begins on, at which a line opens whose indentation fails the test. -/
theorem skipLines_first {keep : Nat → Bool} (h : c.skipLines keep = .ok stop) :
    c ≤ stop ∧ (stop.isDone ∨ stop.OpensLine ∧ keep stop.lead.length = false) ∧
      ∀ d, c ≤ d → d.OpensLine → keep d.lead.length = false → stop ≤ d := by
  fun_induction skipLines keep c with
  | case1 c hdone =>
    obtain rfl : c = stop := by simpa using h
    exact ⟨le_refl c, Or.inl hdone, fun d hd _ _ => hd⟩
  | case2 c _ fault _ => cases h
  | case3 c _ level hl hk ih =>
    obtain ⟨hle, hhere, hfirst⟩ := ih h
    obtain ⟨hnext, -, rfl⟩ := indentLevel_eq_ok_iff.mp hl
    refine ⟨le_trans (le_nextLine c) hle, hhere, fun d hd hopens hfail => ?_⟩
    have hlt : c < d := by
      refine lt_of_le_not_ge hd fun hge => ?_
      rw [eq_of_le_of_length_le hd (length_rest_le_of_le hge), hk] at hfail
      cases hfail
    exact hfirst d (nextLine_le hd (below_of_lt hopens hnext hlt)) hopens hfail
  | case4 c _ level hl hk =>
    obtain rfl : c = stop := by simpa using h
    obtain ⟨-, -, rfl⟩ := indentLevel_eq_ok_iff.mp hl
    exact ⟨le_refl c, Or.inr ⟨⟨_, hl⟩, by simpa using hk⟩, fun d hd _ _ => hd⟩

/-- From where a line opens, the lines that go with it end at the first one below that does not, or at the end. -/
theorem skipBlock_first (keep : Nat → Nat → Bool) {level : Nat} (hl : c.indentLevel = .ok level) :
    ∃ stop, c.skipBlock keep = .ok stop ∧ c.FirstBelow (fun line => keep level line = false) stop := by
  obtain ⟨stop, hstop, hplace⟩ := exists_skipBlock keep (c := c) (Or.inr ⟨level, hl⟩)
  have hdone : c.isDone = false := by
    obtain ⟨ch, rest, hrest, -⟩ := next?_of_indentLevel_eq_ok hl
    simp [isDone, hrest]
  refine ⟨stop, hstop, ?_⟩
  simp only [skipBlock, hdone, Bool.false_eq_true, if_false, hl, Except.bind] at hstop
  obtain ⟨hle, hhere, hfirst⟩ := skipLines_first hstop
  exact {
    le := le_trans (le_nextLine c) hle
    here := by
      rcases hhere with hend | ⟨hopens, hfail⟩
      · exact Or.inl hend
      · exact hplace.imp id fun hbelow => ⟨hbelow, hfail⟩
    first := fun d hd hbelow hfail => hfirst d (nextLine_le hd hbelow) hbelow.1 hfail }

/-- A block and a level begin with the indentation of the place, so they fault where that does. -/
theorem skipBlock_of_error {keep : Nat → Nat → Bool} {fault : Fault} (hdone : c.isDone = false)
    (hl : c.indentLevel = .error fault) : c.skipBlock keep = .error fault := by
  simp only [skipBlock, hdone, Bool.false_eq_true, if_false, hl, Except.bind]

theorem indentLevel_of_blank (h : c.next?.any isBlank) : c.indentLevel = .error (.probedBlank c.offset) := by
  rw [indentLevel, if_neg]
  cases hnext : c.next? <;> simp_all

/-- The nearest visible character before the place on its line is shown. -/
theorem indentLevel_of_midLine {blanks before : Text} {found : Char} (h : c.next?.any (!isBlank ·))
    (hlead : c.lead = blanks ++ found :: before) (hblanks : blanks.all isBlank) (hfound : isBlank found = false) :
    c.indentLevel = .error (.probedMidLine c.offset found) := by
  have hnone : blanks.find? (!isBlank ·) = none := by
    rw [List.find?_eq_none]
    intro ch hch
    simp [List.all_eq_true.mp hblanks ch hch]
  have hfind : c.lead.find? (!isBlank ·) = some found := by
    rw [hlead, List.find?_append, hnone, Option.none_or, List.find?_cons_of_pos (by simp [hfound])]
  rw [indentLevel, if_pos h, hfind]

end Cursor

/-! ## Blocks and levels -/

/-- Blocks and levels are exact. At the end of the text both match with nothing. On a blank both fault, for that. On a
visible character with another before it on its line both fault, and show the nearest one. On the first visible character
of a line the block stops where the first later visible line opens that is indented at most as far, the level where the
first one opens that is indented less far, and either stops at the end of the text where there is no such line. -/
theorem blocks_are_exact (call : Rule → Cursor → Outcome Node) (c : Cursor) :
    (c.isDone → ∀ e ∈ [Extent.block, .level], (Parser.extent e).runWith call c = .hit c ()) ∧
      (c.next?.any isBlank → ∀ e ∈ [Extent.block, .level],
        (Parser.extent e).runWith call c = .halt (.fault (.probedBlank c.offset))) ∧
      (∀ blanks found before, c.next?.any (!isBlank ·) → c.lead = blanks ++ found :: before → blanks.all isBlank →
        isBlank found = false → ∀ e ∈ [Extent.block, .level],
          (Parser.extent e).runWith call c = .halt (.fault (.probedMidLine c.offset found))) ∧
      (c.next?.any (!isBlank ·) → c.lead.all isBlank →
        (∃ stop, (Parser.extent .block).runWith call c = .hit stop () ∧ c.FirstBelow (· ≤ c.lead.length) stop) ∧
          ∃ stop, (Parser.extent .level).runWith call c = .hit stop () ∧ c.FirstBelow (· < c.lead.length) stop) := by
  have hrun {e : Extent} {stop : Cursor} (h : c.extentStop e = .ok stop) :
      (Parser.extent e).runWith call c = .hit stop () := by
    rw [Parser.runWith, h]
    rfl
  have hfault {fault : Fault} (hdone : c.isDone = false) (hl : c.indentLevel = .error fault) :
      ∀ e ∈ [Extent.block, .level], (Parser.extent e).runWith call c = .halt (.fault fault) := by
    rw [List.forall_mem_cons, List.forall_mem_singleton]
    constructor <;> rw [Parser.runWith, Cursor.extentStop, Cursor.skipBlock_of_error hdone hl] <;> rfl
  have hmore {test : Char → Bool} (h : c.next?.any test) : c.isDone = false := by
    cases hrest : c.rest <;> simp_all [Cursor.next?, Cursor.isDone]
  refine ⟨fun hdone => ?_, fun hblank => ?_, fun blanks found before hnext hlead hblanks hfound => ?_, fun hnext hlead => ?_⟩
  · rw [List.forall_mem_cons, List.forall_mem_singleton]
    constructor <;> exact hrun (by rw [Cursor.extentStop, Cursor.skipBlock, if_pos hdone])
  · exact hfault (hmore hblank) (Cursor.indentLevel_of_blank hblank)
  · exact hfault (hmore hnext) (Cursor.indentLevel_of_midLine hnext hlead hblanks hfound)
  · have hl : c.indentLevel = .ok c.lead.length := Cursor.indentLevel_eq_ok_iff.mpr ⟨hnext, hlead, rfl⟩
    obtain ⟨blockStop, hblock, hblockFirst⟩ := c.skipBlock_first (fun reference line => reference < line) hl
    obtain ⟨levelStop, hlevel, hlevelFirst⟩ := c.skipBlock_first (fun reference line => reference ≤ line) hl
    simp only [decide_eq_false_iff_not, Nat.not_lt, Nat.not_le] at hblockFirst hlevelFirst
    exact ⟨⟨blockStop, hrun hblock, hblockFirst⟩, levelStop, hrun hlevel, hlevelFirst⟩

/-- At the `b` of a text the block ends at the `d`, which is indented as far, and the level at the `e`, which is not. At the
end of a line that ends the text both match with nothing, and they fault on a blank and behind an `a` on its line. -/
theorem blocks_are_exact_nested_lines :
    (∃ stop, (Parser.extent .block).runWith (Rule.run 0) ⟨"a\n  ".toList.reverse, "b\n   c\n\n  d\ne".toList⟩ = .hit stop () ∧
        stop.rest = "d\ne".toList ∧
        (Cursor.mk "a\n  ".toList.reverse "b\n   c\n\n  d\ne".toList).FirstBelow (· ≤ 2) stop) ∧
      (∃ stop, (Parser.extent .level).runWith (Rule.run 0) ⟨"a\n  ".toList.reverse, "b\n   c\n\n  d\ne".toList⟩ = .hit stop () ∧
        stop.rest = "e".toList ∧
        (Cursor.mk "a\n  ".toList.reverse "b\n   c\n\n  d\ne".toList).FirstBelow (· < 2) stop) ∧
      (Parser.extent .level).runWith (Rule.run 0) ⟨['a'], []⟩ = .hit ⟨['a'], []⟩ () ∧
      (Parser.extent .block).runWith (Rule.run 0) ⟨['a'], [' ', 'b']⟩ = .halt (.fault (.probedBlank 1)) ∧
      (Parser.extent .block).runWith (Rule.run 0) ⟨[' ', 'a'], ['b']⟩ = .halt (.fault (.probedMidLine 2 'a')) := by
  obtain ⟨-, -, -, hopens⟩ := blocks_are_exact (Rule.run 0) ⟨"a\n  ".toList.reverse, "b\n   c\n\n  d\ne".toList⟩
  obtain ⟨⟨stop, hblock, hblockFirst⟩, stop', hlevel, hlevelFirst⟩ := hopens (by decide) (by decide)
  refine ⟨⟨stop, hblock, ?_, hblockFirst⟩, ⟨stop', hlevel, ?_, hlevelFirst⟩, ?_, ?_, ?_⟩
  · have hrun : (Parser.extent .block).runWith (Rule.run 0) ⟨"a\n  ".toList.reverse, "b\n   c\n\n  d\ne".toList⟩ =
        .hit ⟨"a\n  b\n   c\n\n  ".toList.reverse, "d\ne".toList⟩ () := by decide +kernel
    rw [(Outcome.hit.inj (hblock.symm.trans hrun)).1]
  · have hrun : (Parser.extent .level).runWith (Rule.run 0) ⟨"a\n  ".toList.reverse, "b\n   c\n\n  d\ne".toList⟩ =
        .hit ⟨"a\n  b\n   c\n\n  d\n".toList.reverse, "e".toList⟩ () := by decide +kernel
    rw [(Outcome.hit.inj (hlevel.symm.trans hrun)).1]
  · exact (blocks_are_exact (Rule.run 0) ⟨['a'], []⟩).1 rfl .level (by decide)
  · exact (blocks_are_exact (Rule.run 0) ⟨['a'], [' ', 'b']⟩).2.1 (by decide) .block (by decide)
  · exact (blocks_are_exact (Rule.run 0) ⟨[' ', 'a'], ['b']⟩).2.2.1 [' '] 'a' [] (by decide) rfl (by decide) (by decide)
      .block (by decide)

end Offside
