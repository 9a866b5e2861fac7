import Offside.Proofs.Cursor.Prefix
import Offside.Proofs.Layout.Blocks

/-!
# The layout in a part of a text

The lines at the level of a place are cut out, from the start of its line on, and parsed as a text of their own.
`Cursor.inWhole` is the place of the whole text that a place of such a part is. The lines of the part keep their
indentation, and no extent that begins at one of them reaches beyond it: `Part.skipBlock` says that an extent stops at the
same place in the part as in the whole text.
-/

namespace Offside

open Offside.Parser

namespace Cursor

variable {c d p base last : Cursor} {more span : Text} {level line : Nat}

/-! ## Lines in order -/

/-- The line of a later place starts no earlier. -/
theorem toLineStart_mono (h : c ≤ d) : c.toLineStart ≤ d.toLineStart := by
  obtain ⟨passed, hrest, hpast⟩ := h
  by_cases hline : passed.reverse.dropWhile (· != '\n') = []
  · have hpassed : ∀ ch ∈ passed, (ch != '\n') = true := by simpa [List.dropWhile_eq_nil_iff] using hline
    have hd : d = ⟨passed.reverse ++ c.past, d.rest⟩ := by rw [← hpast]
    rw [hd, toLineStart_append hpassed, ← hrest]
  · refine le_trans (toLineStart_le c) ⟨(passed.reverse.dropWhile (· != '\n')).reverse, ?_, ?_⟩
    · rw [toLineStart, lead, hpast, takeWhile_append_of_dropWhile_ne_nil hline, ← List.append_assoc, ← List.reverse_append,
        List.takeWhile_append_dropWhile, List.reverse_reverse, hrest]
    · rw [toLineStart, hpast, List.dropWhile_append]
      simp [hline]

/-- A place on a line is no earlier than the start of an earlier line. -/
theorem toLineStart_le_of_le (hle : c ≤ d) (hp : p.toLineStart = d.toLineStart) : c.toLineStart ≤ p :=
  le_trans (hp ▸ toLineStart_mono hle) (toLineStart_le p)

/-- The next line is no later than a place after the line where a scan may begin. -/
theorem nextLine_le_of_lt (hnext : c.next?.any (!isBlank ·)) (hlt : c < d) (hd : d.Fresh) : c.nextLine ≤ d := by
  rcases hd with hdone | hopens
  · rcases lt_or_le_of_le (le_nextLine c) hlt.le with h | h
    · exact h.le
    · exact (eq_of_isDone_of_le hdone h).le
  · exact nextLine_le hlt.le (below_of_lt hopens hnext hlt)

/-- A place on a line is no later than a place after the line where a scan may begin. -/
theorem le_of_toLineStart_eq (hnext : c.next?.any (!isBlank ·)) (hlt : c < d) (hd : d.Fresh)
    (hp : p.toLineStart = c.toLineStart) : p ≤ d := by
  have hline : p.nextLine = c.nextLine := by rw [← nextLine_toLineStart, hp, nextLine_toLineStart]
  exact le_trans (hline ▸ le_nextLine p) (nextLine_le_of_lt hnext hlt hd)

/-! ## In front of more text -/

/-- The same place, with more text after the text that it is in. -/
def extended (c : Cursor) (more : Text) : Cursor :=
  ⟨c.past, c.rest ++ more⟩

theorem extended_le_end (c : Cursor) (more : Text) : c.extended more ≤ ⟨c.text.reverse, more⟩ :=
  ⟨c.rest, rfl, by simp [extended, text]⟩

/-- What is passed before the end of a text is passed in the same way in front of more text. -/
theorem skipWhile_extended {test : Char → Bool} (h : (c.extended more).skipWhile test ≤ ⟨c.text.reverse, more⟩) :
    (c.extended more).skipWhile test = (c.skipWhile test).extended more := by
  by_cases hall : c.rest.dropWhile test = []
  · have hpassed : ∀ ch ∈ c.rest, test ch := List.dropWhile_eq_nil_iff.mp hall
    have hlen := length_rest_le_of_le h
    have hsplit := congrArg List.length (List.takeWhile_append_dropWhile (p := test) (l := more))
    have htake : more.takeWhile test = [] := by
      simp only [extended, skipWhile, List.dropWhile_append_of_pos hpassed] at hlen
      rw [List.length_append] at hsplit
      exact List.length_eq_zero_iff.mp (by omega)
    have hdrop : more.dropWhile test = more := by
      conv_rhs => rw [← List.takeWhile_append_dropWhile (p := test) (l := more), htake, List.nil_append]
    simp [extended, skipWhile, List.takeWhile_append_of_pos hpassed, List.dropWhile_append_of_pos hpassed, htake, hdrop,
      List.takeWhile_eq_self_iff.mpr hpassed, hall]
  · simp [extended, skipWhile, List.dropWhile_append, takeWhile_append_of_dropWhile_ne_nil hall, hall]

/-- Where a scan may begin right after a text, the next line of a place in the text is the same in front of more. -/
theorem nextLine_extended (hnext : c.next?.any (!isBlank ·)) (hmore : (Cursor.mk c.text.reverse more).Fresh) :
    (c.extended more).nextLine = c.nextLine.extended more := by
  obtain ⟨ch, rest, hrest⟩ : ∃ ch rest, c.rest = ch :: rest := by
    cases hrest : c.rest <;> simp_all [next?]
  have hlt : c.extended more < ⟨c.text.reverse, more⟩ := by
    refine lt_iff.mpr ⟨extended_le_end c more, ?_⟩
    simp only [extended, hrest, List.length_append, List.length_cons]
    omega
  have hvisible : (c.extended more).next?.any (!isBlank ·) := by simpa [extended, next?, hrest] using hnext
  have hle : (c.extended more).nextLine ≤ ⟨c.text.reverse, more⟩ := nextLine_le_of_lt hvisible hlt hmore
  have hend := skipWhile_extended (le_trans (le_skipWhile _ isBlank) hle)
  rw [nextLine, hend] at hle
  rw [nextLine, hend, skipWhile_extended (by simpa using hle), nextLine]

theorem indentLevel_extended (h : c.isDone = false) : (c.extended more).indentLevel = c.indentLevel := by
  obtain ⟨past, rest⟩ := c
  cases rest with
  | nil => cases h
  | cons ch rest => rfl

theorem toLineStart_extended (c : Cursor) (more : Text) : (c.extended more).toLineStart = c.toLineStart.extended more := by
  simp [extended, toLineStart, lead]

/-- A scan of lines that gets no further than the text stops where it does without what comes after. -/
theorem skipLines_extended {keep : Nat → Bool} (hmore : (Cursor.mk c.text.reverse more).Bars keep) :
    (c.extended more).skipLines keep = (c.skipLines keep).map (·.extended more) := by
  fun_induction skipLines keep c with
  | case1 c hdone =>
    have hend : c.extended more = ⟨c.text.reverse, more⟩ := by simp [extended, text, isDone_iff.mp hdone]
    rw [hend, hmore.skipLines, ← hend]
    rfl
  | case2 c hdone fault hl =>
    have hdone' : ¬(c.extended more).isDone := by simp_all [extended, isDone]
    exact skipLines_of_error hdone' ((indentLevel_extended (by simpa using hdone)).trans hl)
  | case3 c hdone level hl hk ih =>
    have hl' : (c.extended more).indentLevel = .ok level := (indentLevel_extended (by simpa using hdone)).trans hl
    rw [skipLines_of_keep hl' hk, nextLine_extended (indentLevel_eq_ok_iff.mp hl).1 hmore.fresh]
    exact ih (by simpa using hmore)
  | case4 c hdone level hl hk =>
    exact skipLines_of_not_keep ((indentLevel_extended (by simpa using hdone)).trans hl) (by simpa using hk)

/-- So does a block or a level. -/
theorem skipBlock_extended {keep : Nat → Nat → Bool} (hl : c.indentLevel = .ok level)
    (hmore : (Cursor.mk c.text.reverse more).Bars (keep level)) :
    (c.extended more).skipBlock keep = (c.skipBlock keep).map (·.extended more) := by
  obtain ⟨ch, rest, hrest, -⟩ := next?_of_indentLevel_eq_ok hl
  have hl' : (c.extended more).indentLevel = .ok level := (indentLevel_extended (by simp [isDone, hrest])).trans hl
  rw [skipBlock_of_ok hl', skipBlock_of_ok hl, nextLine_extended (indentLevel_eq_ok_iff.mp hl).1 hmore.fresh]
  exact skipLines_extended (by simpa using hmore)

/-! ## Parts of a text -/

/-- A text that stands between two places, the first of which is the start of a line. -/
structure Part (base last : Cursor) (span : Text) : Prop where
  /-- It comes after the first place, up to the second. -/
  rest : base.rest = span ++ last.rest
  /-- It comes before the second place, back to the first. -/
  past : last.past = span.reverse ++ base.past
  /-- There are whole lines before the first place. -/
  lines : WholeLines base.past.reverse

/-- From the start of a place's line up to a later place there is a part of the text. -/
theorem exists_part (h : c ≤ last) : ∃ span, c.toLineStart.slice? last = some span ∧ Part c.toLineStart last span := by
  have hle := le_trans (toLineStart_le c) h
  obtain ⟨span, hspan, hrest⟩ := slice?_of_le hle
  obtain ⟨passed, hpassed, hpast⟩ := hle
  obtain rfl : passed = span := List.append_cancel_right (hpassed.symm.trans hrest)
  exact ⟨passed, hspan, hrest, hpast, wholeLines_of_column (by simp [column])⟩

/-- A place of the part between two places, as a place of the whole text. -/
def inWhole (base last c : Cursor) : Cursor :=
  (c.extended last.rest).after base.past.reverse

theorem offset_inWhole (base last c : Cursor) : (inWhole base last c).offset = base.offset + c.offset := by
  rw [inWhole, offset_after, utf8Size_reverse]
  rfl

theorem inWhole_inj : inWhole base last c = inWhole base last d ↔ c = d := by
  obtain ⟨past, rest⟩ := c
  obtain ⟨past', rest'⟩ := d
  simp [inWhole, extended, after]

/-- A place before the second is not at the end of the part. -/
theorem isDone_of_inWhole_lt (h : inWhole base last c < last) : c.isDone = false := by
  have hlen := (lt_iff.mp h).2
  cases hrest : c.rest <;> simp_all [inWhole, extended, after, isDone]

/-- The place is as many bytes after the start of the part as it is after the first place in the whole text. -/
theorem seek?_inWhole (base last : Cursor) (htext : c.text = span) :
    (start span).seek? ((inWhole base last c).offset - base.offset) = some c := by
  rw [offset_inWhole, Nat.add_sub_cancel_left, ← htext]
  exact seek?_offset c

namespace Part

variable (hpart : Part base last span)

include hpart

/-- Every place between the two is one of the part. -/
theorem exists_place (hbase : base ≤ p) (hlast : p ≤ last) : ∃ c : Cursor, c.text = span ∧ inWhole base last c = p := by
  obtain ⟨s, hs, hpast⟩ := hbase
  obtain ⟨t, ht, -⟩ := hlast
  refine ⟨⟨s.reverse, t⟩, ?_, ?_⟩
  · have hspan : s ++ t ++ last.rest = span ++ last.rest := by rw [← hpart.rest, hs, ht, List.append_assoc]
    simpa [text] using List.append_cancel_right hspan
  · simp [inWhole, extended, after, ← ht, ← hpast]

theorem inWhole_le (htext : c.text = span) : inWhole base last c ≤ last :=
  ⟨c.rest, rfl, by simp [inWhole, extended, after, hpart.past, ← htext, text]⟩

/-- The end of the part is the second place. -/
theorem inWhole_end : inWhole base last ⟨span.reverse, []⟩ = last := by
  simp [inWhole, extended, after, ← hpart.past]

theorem toLineStart_inWhole : (inWhole base last c).toLineStart = inWhole base last c.toLineStart := by
  rw [inWhole, toLineStart_after _ hpart.lines, toLineStart_extended, inWhole]

/-- A line of the part has its indentation in the whole text. -/
theorem indentLevel_iff (hmore : c.isDone = false) :
    (inWhole base last c).indentLevel = .ok level ↔ c.indentLevel = .ok level := by
  rw [← indentLevel_extended hmore, inWhole, indentLevel_eq_ok_iff, lead_after _ hpart.lines, indentLevel_eq_ok_iff]
  rfl

/-- A scan of lines that gets no further than to the second place gets no further than the part. -/
theorem bars {keep : Nat → Bool} (h : last.Bars keep) : (Cursor.mk span.reverse last.rest).Bars keep := by
  have hlast : last = (Cursor.mk span.reverse last.rest).after base.past.reverse := hpart.inWhole_end.symm
  refine h.imp id fun ⟨level, hl, hk⟩ => ⟨level, ?_, hk⟩
  rw [hlast, indentLevel_eq_ok_iff, lead_after _ hpart.lines] at hl
  exact indentLevel_eq_ok_iff.mpr hl

/-- A block or a level that gets no further than the part stops at the same place in the part as in the whole text. -/
theorem skipBlock (keep : Nat → Nat → Bool) (htext : c.text = span) (hl : c.indentLevel = .ok level)
    (hlast : last.Bars (keep level)) :
    ∃ stop, c.skipBlock keep = .ok stop ∧ (inWhole base last c).skipBlock keep = .ok (inWhole base last stop) := by
  obtain ⟨stop, hstop, -⟩ := skipBlock_first keep hl
  have hstep := (keepsLayout_after hpart.lines).keepsLines.skipBlock keep (c := c.extended last.rest) rfl
  rw [skipBlock_extended hl (htext ▸ hpart.bars hlast), hstop] at hstep
  generalize hwhole : ((c.extended last.rest).after base.past.reverse).skipBlock keep = e at hstep
  cases hstep with
  | ok related =>
    subst related
    exact ⟨stop, hstop, hwhole⟩

end Part

end Cursor

open Cursor

/-- An extent stops at the same place in a part of a text, from one place to another, as in the whole text, and does not
reach beyond the part. -/
def StopsAlike (call : Rule → Cursor → Outcome Node) (x : Extent) (base last place part : Cursor) : Prop :=
  ∃ stop stop', (extent x).runWith call place = .hit stop () ∧ (extent x).runWith call part = .hit stop' () ∧
    stop'.offset + base.offset = stop.offset ∧ stop ≤ last

section

variable (call : Rule → Cursor → Outcome Node) {x : Extent} {base last c stop : Cursor} {span : Text} {line : Nat}
  (hpart : Part base last span) (htext : c.text = span)

include hpart htext

theorem Cursor.Part.stopsAlike (hstop : c.extentStop x = .ok stop)
    (hwhole : (inWhole base last c).extentStop x = .ok (inWhole base last stop)) :
    StopsAlike call x base last (inWhole base last c) c := by
  refine ⟨_, stop, hit_extent_iff.mpr hwhole, hit_extent_iff.mpr hstop, ?_, ?_⟩
  · rw [offset_inWhole, Nat.add_comm]
  · exact hpart.inWhole_le ((text_eq_of_le (le_of_extentStop hstop)).trans htext)

/-- The extents that begin at a line of a part stop in it as they do in the whole text, if the second place of the part is
the end or the start of a line that is indented less. -/
theorem Cursor.Part.stopsAlike_of_line (hl : c.indentLevel = .ok line)
    (hwhole : (inWhole base last c).indentLevel = .ok line) (hlast : last.Bars fun l => decide (line ≤ l)) :
    StopsAlike call .block base last (inWhole base last c) c ∧ StopsAlike call .level base last (inWhole base last c) c ∧
      ∀ d : Cursor, d.text = span → (inWhole base last d).toLineStart = (inWhole base last c).toLineStart →
        StopsAlike call .restOfBlock base last (inWhole base last d) d := by
  have hlast' : last.Bars fun l => decide (line < l) := hlast.of_imp (by simpa using fun _ => Nat.le_of_lt)
  obtain ⟨blockStop, hblock, hblock'⟩ := hpart.skipBlock (fun reference line => reference < line) htext hl hlast'
  obtain ⟨levelStop, hlevel, hlevel'⟩ := hpart.skipBlock (fun reference line => reference ≤ line) htext hl hlast
  refine ⟨hpart.stopsAlike call htext hblock hblock', hpart.stopsAlike call htext hlevel hlevel', fun d hdtext hline => ?_⟩
  -- The rest of the block is the block of the line, in the part and in the whole text.
  have hline' : d.toLineStart = c.toLineStart := by
    rwa [hpart.toLineStart_inWhole, hpart.toLineStart_inWhole, inWhole_inj] at hline
  have hrest := (restOfBlock_eq_block ⟨line, hl⟩ hline'.symm).trans hblock
  have hrest' := (restOfBlock_eq_block ⟨line, hwhole⟩ hline.symm).trans hblock'
  exact hpart.stopsAlike call hdtext hrest hrest'

end

/-- The lines at the level of a place, which are parsed as a text of their own, keep their layout. A line that opens at a
place of that text has the same indentation there as in the whole text. The block and the level that begin at the place, and
the rest of the block from anywhere on its line, stop at the same place in both, and not beyond the text. -/
theorem parts_keep_layout (call : Rule → Cursor → Outcome Node) {c : Cursor} {level : Nat} (hl : c.indentLevel = .ok level) :
    ∃ last span, (extent .level).runWith call c = .hit last () ∧ c.toLineStart.slice? last = some span ∧
      (∀ {α : Type} (content : Parser α),
        (indented content).runWith call c = (content.runWith call (.start span)).bind fun _ value => .hit last value) ∧
      (∃ stop, (start span).seek? (last.offset - c.toLineStart.offset) = some stop ∧ stop.isDone) ∧
      ∀ q line, c ≤ q → q < last → q.indentLevel = .ok line →
        ∃ q', (start span).seek? (q.offset - c.toLineStart.offset) = some q' ∧ q'.indentLevel = .ok line ∧
          StopsAlike call .block c.toLineStart last q q' ∧ StopsAlike call .level c.toLineStart last q q' ∧
          ∀ p, p.toLineStart = q.toLineStart →
            ∃ p', (start span).seek? (p.offset - c.toLineStart.offset) = some p' ∧
              StopsAlike call .restOfBlock c.toLineStart last p p' := by
  obtain ⟨last, hlast, -⟩ := skipBlock_first (fun reference line => reference ≤ line) hl
  obtain ⟨span, hspan, hpart⟩ := exists_part (le_of_skipBlock hlast)
  refine ⟨last, span, hit_extent_iff.mpr hlast, hspan, fun content => ?_, ?_, fun q line hcq hlt hline => ?_⟩
  · have hstop : c.extentStop .level = .ok last := hlast
    simp only [runWith, hstop, Outcome.ofExcept, hspan, Outcome.ofOption]
  · have hend : (Cursor.mk span.reverse []).text = span := by simp [text]
    have hplace := seek?_inWhole c.toLineStart last hend
    rw [hpart.inWhole_end] at hplace
    exact ⟨_, hplace, rfl⟩
  · -- The line goes with the first, so what stops the level of that stops all that begins at the line.
    have hlow : level ≤ line := level_le_of_lt hl hlast hcq hlt hline
    have hbars := bars_of_skipBlock hl hlast
    obtain ⟨q', htext, rfl⟩ := hpart.exists_place (le_trans (toLineStart_le c) hcq) hlt.le
    have hline' := (hpart.indentLevel_iff (isDone_of_inWhole_lt hlt)).mp hline
    obtain ⟨hblock, hlevel, hrest⟩ := hpart.stopsAlike_of_line call htext hline' hline
      (hbars.of_imp (by simpa using fun _ => le_trans hlow))
    refine ⟨q', seek?_inWhole _ last htext, hline', hblock, hlevel, fun p hp => ?_⟩
    obtain ⟨p', hptext, rfl⟩ := hpart.exists_place (toLineStart_le_of_le hcq hp)
      (le_of_toLineStart_eq (indentLevel_eq_ok_iff.mp hline).1 hlt hbars.fresh hp)
    exact ⟨p', seek?_inWhole _ last hptext, hrest p' hptext hp⟩

/-- The lines at the level of the `b` end with the indentation of the `e`. In their text the `c` is seven bytes from the start
and indented by three as before; its block stops where it does in the whole text, and so does the rest of it from the `d`. -/
theorem parts_keep_layout_cut_line :
    ∃ q', (start "  b\n   cd\n ".toList).seek? 7 = some q' ∧ q'.indentLevel = .ok 3 ∧
      StopsAlike (Rule.run 0) .block ⟨"é\n".toList.reverse, "  b\n   cd\n e".toList⟩
        ⟨"é\n  b\n   cd\n ".toList.reverse, "e".toList⟩ ⟨"é\n  b\n   ".toList.reverse, "cd\n e".toList⟩ q' ∧
      ∃ p', (start "  b\n   cd\n ".toList).seek? 8 = some p' ∧
        StopsAlike (Rule.run 0) .restOfBlock ⟨"é\n".toList.reverse, "  b\n   cd\n e".toList⟩
          ⟨"é\n  b\n   cd\n ".toList.reverse, "e".toList⟩ ⟨"é\n  b\n   c".toList.reverse, "d\n e".toList⟩ p' := by
  have hl : (Cursor.mk "é\n  ".toList.reverse "b\n   cd\n e".toList).indentLevel = .ok 2 := by decide
  have hbase : (Cursor.mk "é\n  ".toList.reverse "b\n   cd\n e".toList).toLineStart =
      ⟨"é\n".toList.reverse, "  b\n   cd\n e".toList⟩ := by decide
  have hrun : (extent .level).runWith (Rule.run 0) ⟨"é\n  ".toList.reverse, "b\n   cd\n e".toList⟩ =
      .hit ⟨"é\n  b\n   cd\n ".toList.reverse, "e".toList⟩ () := by decide +kernel
  obtain ⟨last, span, hlast, hspan, -, -, hlines⟩ := parts_keep_layout (Rule.run 0) hl
  rw [hbase] at hspan hlines
  obtain ⟨rfl, -⟩ := Outcome.hit.inj (hlast.symm.trans hrun)
  obtain rfl : span = "  b\n   cd\n ".toList := Option.some.inj (hspan.symm.trans (by decide))
  obtain ⟨q', hq', hline, hblock, -, hrest⟩ := hlines ⟨"é\n  b\n   ".toList.reverse, "cd\n e".toList⟩ 3
    ⟨"b\n   ".toList, rfl, rfl⟩ (lt_iff.mpr ⟨⟨"cd\n ".toList, rfl, rfl⟩, by decide⟩) (by decide)
  obtain ⟨p', hp', hrest'⟩ := hrest ⟨"é\n  b\n   c".toList.reverse, "d\n e".toList⟩ (by decide)
  exact ⟨q', hq', hline, hblock, p', hp', hrest'⟩

end Offside
