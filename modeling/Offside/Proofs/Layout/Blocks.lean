import Offside.Proofs.Layout.Bodies
import Offside.Proofs.Layout.Extents
import Offside.Proofs.Layout.InStep
import Offside.Proofs.Parser.Inversion

/-!
# Blocks in a row

The three extents go by one scan. The rest of a block, asked for anywhere on a line, is the block of that line:
`restOfBlock_eq_block`. The lines at a level are the blocks of the lines with just that indentation, one after the other:
`Blocks` holds them with the places where they begin, and `Blocks.level_stop` says that they lead to where the level stops.
-/

namespace Offside

open Offside.Parser

namespace Cursor

variable {c d e first next stop : Cursor} {level : Nat}

/-! ## Places on one line -/

/-- Where a run of characters is over before all of them satisfy another test, those that satisfy that come in the run. -/
theorem mem_takeWhile_of_not_all {α : Type} {run test : α → Bool} {t : List α} (h : ¬(t.takeWhile run).all test) :
    ∀ a ∈ t.takeWhile test, run a := by
  induction t with
  | nil => simp
  | cons a t ih =>
    by_cases hrun : run a
    · by_cases htest : test a
      · simp only [List.takeWhile_cons, hrun, htest, if_true, List.all_cons, Bool.true_and] at h ⊢
        exact List.forall_mem_cons.mpr ⟨hrun, ih h⟩
      · simp [htest]
    · simp [hrun] at h

/-- What is passed without a newline stays on the line. -/
theorem toLineStart_append {past w rest : Text} (h : ∀ ch ∈ w, (ch != '\n') = true) :
    (Cursor.mk (w.reverse ++ past) rest).toLineStart = (Cursor.mk past (w ++ rest)).toLineStart := by
  have hback : ∀ ch ∈ w.reverse, (ch != '\n') = true := fun ch hch => h ch (List.mem_reverse.mp hch)
  simp [toLineStart, lead, List.takeWhile_append_of_pos hback, List.dropWhile_append_of_pos hback]

theorem lead_ne_newline (c : Cursor) : ∀ ch ∈ c.lead.reverse, (ch != '\n') = true :=
  fun _ hch => List.mem_takeWhile_imp (p := (· != '\n')) (List.mem_reverse.mp hch)

/-- A place is past what comes before it on its line. -/
theorem eq_lead_append (c : Cursor) : c = ⟨c.lead.reverse.reverse ++ c.toLineStart.past, c.rest⟩ := by
  rw [List.reverse_reverse, lead, toLineStart, List.takeWhile_append_dropWhile]

@[simp] theorem toLineStart_toLineStart (c : Cursor) : c.toLineStart.toLineStart = c.toLineStart := by
  conv_rhs => rw [eq_lead_append c, toLineStart_append c.lead_ne_newline]
  rfl

/-- From the start of a line, as from a place on it, the line ends where it does. -/
theorem skipWhile_line_toLineStart (c : Cursor) : c.toLineStart.skipWhile (· != '\n') = c.skipWhile (· != '\n') := by
  conv_rhs => rw [eq_lead_append c, ← skipWhile_append_of_all _ c.lead_ne_newline]
  rfl

/-- From the start of a line, as from a place on it, the next line is the one below. -/
theorem nextLine_toLineStart (c : Cursor) : c.toLineStart.nextLine = c.nextLine := by
  rw [nextLine, skipWhile_line_toLineStart, nextLine]

/-- The place where a line opens is past the blanks that the line starts with. -/
theorem skipWhile_toLineStart (h : c.OpensLine) : c.toLineStart.skipWhile isBlank = c := by
  obtain ⟨hnext, hlead⟩ := opensLine_iff.mp h
  have hblank : ∀ ch ∈ c.lead.reverse, isBlank ch := by simpa using hlead
  have hvisible : c.rest.head?.all (!isBlank ·) := by
    cases hrest : c.rest <;> simp_all [next?]
  conv_rhs => rw [eq_lead_append c, ← skipWhile_append _ hblank hvisible]
  rfl

/-- A line that opens somewhere is not blank. -/
theorem visible_of_opensLine (h : c.OpensLine) : ¬c.toLineStart.restOfLine.all isBlank := by
  obtain ⟨hnext, -⟩ := opensLine_iff.mp h
  rw [restOfLine_toLineStart, restOfLine, Text.firstLine]
  cases hrest : c.rest with
  | nil => simp [next?, hrest] at hnext
  | cons ch rest =>
    have hch : isBlank ch = false := by simpa [next?, hrest] using hnext
    simp [ne_newline_of_not_isBlank hch, hch]

/-- A line with something visible on it opens somewhere. -/
theorem exists_opensLine (h : ¬c.toLineStart.restOfLine.all isBlank) :
    ∃ first : Cursor, first.OpensLine ∧ first.toLineStart = c.toLineStart := by
  refine ⟨c.toLineStart.skipWhile isBlank, opensLine_of_visible h, ?_⟩
  rw [skipWhile, toLineStart_append (mem_takeWhile_of_not_all h), List.takeWhile_append_dropWhile]
  exact toLineStart_toLineStart c

/-- Anywhere on a line, the rest of the block is the block of the line. -/
theorem restOfBlock_eq_block (h : first.OpensLine) (hline : first.toLineStart = c.toLineStart) :
    c.extentStop .restOfBlock = first.extentStop .block := by
  have hvisible := hline ▸ visible_of_opensLine h
  have hfirst := hline ▸ skipWhile_toLineStart h
  have hnext : c.nextLine = first.nextLine := by
    rw [← nextLine_toLineStart, ← hline, nextLine_toLineStart]
  obtain ⟨ch, rest, hrest, -⟩ := next?_of_indentLevel_eq_ok h.choose_spec
  simp only [extentStop, if_neg hvisible, hfirst, skipBlock, hnext, isDone, hrest]
  rfl

/-! ## One block after the other -/

/-- Blocks one after the other, from a line on and for as long as the next line is indented just so far: the places where
they begin, with their texts, and the place where the last of them stops. -/
inductive Blocks (level : Nat) : Cursor → List (Cursor × Text) → Cursor → Prop where
  | last {c stop : Cursor} {span : Text} (block : c.extentStop .block = .ok stop) (slice : c.slice? stop = some span)
    (ends : stop.indentLevel ≠ .ok level) : Blocks level c [(c, span)] stop
  | more {c next stop : Cursor} {span : Text} {blocks : List (Cursor × Text)} (block : c.extentStop .block = .ok next)
    (slice : c.slice? next = some span) (goes : next.indentLevel = .ok level) (rest : Blocks level next blocks stop) :
    Blocks level c ((c, span) :: blocks) stop

/-- A scan of lines gets no further than to the place: it is at the end, or a line opens there that fails the test. -/
def Bars (keep : Nat → Bool) (c : Cursor) : Prop :=
  c.isDone ∨ ∃ level, c.indentLevel = .ok level ∧ keep level = false

theorem Bars.fresh {keep : Nat → Bool} (h : c.Bars keep) : c.Fresh :=
  h.imp_right fun ⟨level, hl, _⟩ => ⟨level, hl⟩

/-- What stops a scan stops a scan that lets fewer lines pass. -/
theorem Bars.of_imp {keep keep' : Nat → Bool} (h : c.Bars keep) (himp : ∀ level, keep' level → keep level) :
    c.Bars keep' :=
  h.imp_right fun ⟨level, hl, hk⟩ => ⟨level, hl, Bool.eq_false_iff.mpr fun hk' => by simp [himp level hk'] at hk⟩

theorem Bars.skipLines {keep : Nat → Bool} (h : c.Bars keep) : c.skipLines keep = .ok c := by
  rcases h with hdone | ⟨level, hl, hk⟩
  · exact skipLines_of_isDone hdone
  · exact skipLines_of_not_keep hl hk

/-- A scan that lets more lines pass goes on from where the other stops. -/
theorem skipLines_bind {keep keep' : Nat → Bool} (h : ∀ level, keep level → keep' level) (c : Cursor) :
    c.skipLines keep' = (c.skipLines keep).bind fun d => d.skipLines keep' := by
  fun_induction skipLines keep c with
  | case1 c hdone => rfl
  | case2 c hdone fault hl => exact skipLines_of_error hdone hl
  | case3 c hdone level hl hk ih =>
    rw [skipLines_of_keep hl (h level hk)]
    exact ih
  | case4 c hdone level hl hk => rfl

/-- From where a line opens, an extent is the lines after it that go with its indentation. -/
theorem skipBlock_of_ok {keep : Nat → Nat → Bool} (hl : c.indentLevel = .ok level) :
    c.skipBlock keep = c.nextLine.skipLines (keep level) := by
  obtain ⟨ch, rest, hrest, -⟩ := next?_of_indentLevel_eq_ok hl
  simp [skipBlock, isDone, hrest, hl, Except.bind]

/-- The lines at a level are the first block and the lines from there on that are indented at least as far. -/
theorem level_eq_block_bind (hl : c.indentLevel = .ok level) :
    c.extentStop .level = (c.extentStop .block).bind fun next => next.skipLines fun line => level ≤ line := by
  rw [extentStop, extentStop, skipBlock_of_ok hl, skipBlock_of_ok hl]
  exact skipLines_bind (by simpa using fun _ => Nat.le_of_lt) c.nextLine

/-- An extent stops where its scan of lines does. -/
theorem bars_of_skipBlock {keep : Nat → Nat → Bool} (hl : c.indentLevel = .ok level) (h : c.skipBlock keep = .ok d) :
    d.Bars (keep level) := by
  rw [skipBlock_of_ok hl] at h
  exact isDone_or_not_keep_of_skipLines h

/-- A block gets ahead. -/
theorem lt_of_block (hl : c.indentLevel = .ok level) (h : c.extentStop .block = .ok d) : c < d := by
  rw [extentStop, skipBlock_of_ok hl] at h
  have hlen := length_rest_nextLine_lt hl
  have hle := le_of_skipLines h
  exact lt_iff.mpr ⟨le_trans (le_nextLine c) hle, lt_of_le_of_lt (length_rest_le_of_le hle) hlen⟩

/-- Every line on the way to where an extent stops goes with its first line. -/
theorem keep_of_lt {keep : Nat → Nat → Bool} {line : Nat} (hl : c.indentLevel = .ok level) (h : c.skipBlock keep = .ok stop)
    (hcd : c < d) (hlt : d < stop) (hd : d.indentLevel = .ok line) : keep level line := by
  obtain ⟨stop', hstop, hfirst⟩ := skipBlock_first keep hl
  obtain rfl : stop' = stop := Except.ok.inj (hstop.symm.trans h)
  obtain ⟨-, -, rfl⟩ := indentLevel_eq_ok_iff.mp hd
  have hbelow := below_of_lt ⟨_, hd⟩ (indentLevel_eq_ok_iff.mp hl).1 hcd
  by_contra hfail
  exact not_le_of_gt hlt (hfirst.first d hcd.le hbelow (by simpa using hfail))

/-- No other line of a block is indented just as far as its first. -/
theorem eq_of_lt_block (hl : c.indentLevel = .ok level) (h : c.extentStop .block = .ok next) (hle : c ≤ d) (hlt : d < next)
    (hd : d.indentLevel = .ok level) : d = c := by
  refine (eq_or_lt_of_le hle).resolve_right fun hcd => ?_
  simpa using keep_of_lt hl h hcd hlt hd

/-- Every line of a level is indented at least as far as its first. -/
theorem level_le_of_lt {line : Nat} (hl : c.indentLevel = .ok level) (h : c.extentStop .level = .ok stop) (hle : c ≤ d)
    (hlt : d < stop) (hd : d.indentLevel = .ok line) : level ≤ line := by
  rcases eq_or_lt_of_le hle with rfl | hcd
  · exact (Except.ok.inj (hl.symm.trans hd)).le
  · simpa using keep_of_lt hl h hcd hlt hd

/-- From where a line opens there are blocks one after the other. -/
theorem exists_blocks (hl : c.indentLevel = .ok level) : ∃ blocks stop, Blocks level c blocks stop := by
  induction hlen : c.rest.length using Nat.strong_induction_on generalizing c with
  | _ n ih =>
    obtain ⟨next, hblock, -⟩ := skipBlock_first (fun reference line => reference < line) hl
    have hlt : c < next := lt_of_block hl hblock
    obtain ⟨span, hslice, -⟩ := slice?_of_le hlt.le
    by_cases hnext : next.indentLevel = .ok level
    · obtain ⟨blocks, stop, hrest⟩ := ih _ (hlen ▸ (lt_iff.mp hlt).2) hnext rfl
      exact ⟨_, stop, .more hblock hslice hnext hrest⟩
    · exact ⟨_, next, .last hblock hslice hnext⟩

namespace Blocks

variable {blocks : List (Cursor × Text)}

/-- Block after block, the place is reached where the level stops. -/
theorem level_stop (h : Blocks level c blocks stop) (hl : c.indentLevel = .ok level) :
    c.extentStop .level = .ok stop := by
  induction h with
  | @last c stop span block slice ends =>
    -- The block stops at a line that is not indented further, and the line is not indented as far.
    have hbars : stop.Bars fun line => decide (level ≤ line) := by
      refine (bars_of_skipBlock hl block).imp_right fun ⟨line, hline, hle⟩ => ⟨line, hline, ?_⟩
      have hne : line ≠ level := by
        rintro rfl
        exact ends hline
      simp only [decide_eq_false_iff_not] at hle ⊢
      omega
    rw [level_eq_block_bind hl, block]
    exact hbars.skipLines
  | more block slice goes rest ih =>
    rw [level_eq_block_bind hl, block]
    have hlevel := ih goes
    rw [extentStop, skipBlock_of_ok goes] at hlevel
    exact (skipLines_of_keep goes (by simp)).trans hlevel

theorem lt (h : Blocks level c blocks stop) (hl : c.indentLevel = .ok level) : c < stop := by
  induction h with
  | last block slice ends => exact lt_of_block hl block
  | more block slice goes rest ih => exact lt_trans (lt_of_block hl block) (ih goes)

/-- The texts of the blocks make up the text over all of them. -/
theorem slice (h : Blocks level c blocks stop) (hl : c.indentLevel = .ok level) :
    c.slice? stop = some (blocks.map Prod.snd).flatten := by
  induction h with
  | last block slice ends => simpa using slice
  | more block slice goes rest ih =>
    exact slice?_trans (lt_of_block hl block).le (rest.lt goes).le slice (ih goes)

/-- The blocks are those of all the lines on the way that are indented just so far. -/
theorem mem_iff (h : Blocks level c blocks stop) (hl : c.indentLevel = .ok level) :
    d ∈ blocks.map Prod.fst ↔ c ≤ d ∧ d < stop ∧ d.indentLevel = .ok level := by
  induction h with
  | last block slice ends =>
    simp only [List.map_cons, List.map_nil, List.mem_singleton]
    constructor
    · rintro rfl
      exact ⟨le_refl d, lt_of_block hl block, hl⟩
    · rintro ⟨hle, hlt, hd⟩
      exact eq_of_lt_block hl block hle hlt hd
  | more block slice goes rest ih =>
    have hfirst := lt_of_block hl block
    rw [List.map_cons, List.mem_cons, ih goes]
    constructor
    · rintro (rfl | ⟨hle, hlt, hd⟩)
      · exact ⟨le_refl d, lt_trans hfirst (rest.lt goes), hl⟩
      · exact ⟨le_trans hfirst.le hle, hlt, hd⟩
    · rintro ⟨hle, hlt, hd⟩
      rcases lt_or_le_of_le hle hfirst.le with hbefore | hnext
      · exact Or.inl (eq_of_lt_block hl block hle hbefore hd)
      · exact Or.inr ⟨hnext, hlt, hd⟩

end Blocks

end Cursor

open Cursor

/-- The three extents agree. The rest of a block is found from anywhere and, on a line with something visible, it stops
where the block does that begins at the first visible character of the line. From where a line opens, block after block for
as long as the next line has the same indentation leads to where the level stops: the text of the level is that of the
blocks of all its lines with just that indentation, in order. -/
theorem extents_agree (call : Rule → Cursor → Outcome Node) :
    (∀ c, ∃ stop, (extent .restOfBlock).runWith call c = .hit stop ()) ∧
      (∀ c : Cursor, c.toLineStart.restOfLine.any (!isBlank ·) →
        ∃ first : Cursor, first.OpensLine ∧ first.toLineStart = c.toLineStart ∧
          (extent .restOfBlock).runWith call c = (extent .block).runWith call first) ∧
      ∀ c level, c.indentLevel = .ok level →
        (∃ blocks stop, Blocks level c blocks stop) ∧
          ∀ blocks stop, Blocks level c blocks stop →
            (extent .level).runWith call c = .hit stop () ∧ c.slice? stop = some (blocks.map Prod.snd).flatten ∧
              ∀ d, d ∈ blocks.map Prod.fst ↔ c ≤ d ∧ d < stop ∧ d.indentLevel = .ok level := by
  refine ⟨fun c => ?_, fun c hvisible => ?_, fun c level hl => ⟨exists_blocks hl, fun blocks stop hblocks => ?_⟩⟩
  · obtain ⟨stop, hstop, -⟩ := exists_restOfBlock c
    exact ⟨stop, hit_extent_iff.mpr hstop⟩
  · obtain ⟨first, hfirst, hline⟩ := exists_opensLine (c := c) (by simpa using hvisible)
    refine ⟨first, hfirst, hline, ?_⟩
    rw [runWith, restOfBlock_eq_block hfirst hline, runWith]
  · exact ⟨hit_extent_iff.mpr (hblocks.level_stop hl), hblocks.slice hl, fun d => hblocks.mem_iff hl⟩

/-- From the `y` the rest of the block is that of the line, which opens at the `b`. From there two blocks make up the lines
indented by two: that of the `b` with the `c` below it, and that of the `d`. -/
theorem extents_agree_two_blocks :
    (∃ first : Cursor, first.OpensLine ∧ first.toLineStart = ⟨"a\n".toList.reverse, "  b y\n   c\n\n  d\ne".toList⟩ ∧
        (extent .restOfBlock).runWith (Rule.run 0) ⟨"a\n  b ".toList.reverse, "y\n   c\n\n  d\ne".toList⟩ =
          (extent .block).runWith (Rule.run 0) first) ∧
      (extent .level).runWith (Rule.run 0) ⟨"a\n  ".toList.reverse, "b y\n   c\n\n  d\ne".toList⟩ =
        .hit ⟨"a\n  b y\n   c\n\n  d\n".toList.reverse, "e".toList⟩ () := by
  obtain ⟨-, hline, hlevel⟩ := extents_agree (Rule.run 0)
  refine ⟨hline ⟨"a\n  b ".toList.reverse, "y\n   c\n\n  d\ne".toList⟩ (by decide), ?_⟩
  refine ((hlevel _ 2 (by decide)).2
    [(⟨"a\n  ".toList.reverse, "b y\n   c\n\n  d\ne".toList⟩, "b y\n   c\n\n  ".toList),
      (⟨"a\n  b y\n   c\n\n  ".toList.reverse, "d\ne".toList⟩, "d\n".toList)] _ ?_).1
  exact .more (by decide +kernel) (by decide) (by decide) (.last (by decide +kernel) (by decide) (by decide))

end Offside
