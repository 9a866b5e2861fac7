import Offside.Proofs.Cursor.Positions
import Offside.Proofs.Document.Faults

/-!
# Where a parse stopped

A parse that had to reach the end of the text and did not is reported with a line and a column. They are those of the place
where the document stops, and since lines and columns tell the places of a text apart, a reader of the report finds this place
and no other: `positions_identify_offsets`.
-/

namespace Offside

open Cursor

/-- A document fails the check where it stops before the end, and the fault names the place and shows what comes next. -/
theorem Document.check_eq_incomplete_iff {d : Document} {line column : Nat} {window : Text} :
    d.check = .error (.incomplete line column window) ↔
      d.isComplete = false ∧ d.stop.NamedBy line column ∧ window = d.stop.window reportWidth := by
  rw [namedBy_iff, check]
  cases d.isComplete <;> simp [eq_comm, and_assoc]

section Incomplete

variable {depth : Nat} {o : Options} {t : Text} {line column : Nat} {window : Text}

/-- The items of a document do not halt for stopping before the end. -/
theorem run_items_ne_incomplete : o.items.run depth (.start t) ≠ .halt (.fault (.incomplete line column window)) := by
  intro hrun
  rcases (o.items_ensures (Rule.good depth) t).halts _ hrun with htoo | ⟨fault, hfault, ⟨_, _, rfl⟩, -⟩
  · cases htoo
  · cases hfault

/-- A parse turns out incomplete where it has to reach the end, and the document that it gives without having to fails the
check. -/
theorem parseWithin_eq_incomplete_iff :
    parseWithin depth o t = .error (.fault (.incomplete line column window)) ↔ o.requireComplete ∧
      ∃ d, parseWithin depth { o with requireComplete := false } t = .ok d ∧ d.check = .error (.incomplete line column window) := by
  -- The items are the same whether or not they have to reach the end.
  have hitems {d : Document} : parseWithin depth { o with requireComplete := false } t = .ok d ↔
      ∃ found, o.items.run depth (.start t) = .hit d.stop found ∧ d = .ofItems d.stop found :=
    parseWithin_eq_ok_iff (o := { o with requireComplete := false }) rfl
  have hfinish {d : Document} (hcomplete : o.requireComplete) :
      parseWithin.finish o d = .error (.fault (.incomplete line column window)) ↔
        d.check = .error (.incomplete line column window) := by
    rw [parseWithin.finish, if_pos hcomplete]
    cases d.check <;> simp [Except.mapError]
  constructor
  · intro h
    rcases parseWithin_eq_error h with hhalt | ⟨hcomplete, stop, found, hrun, -, -⟩
    · exact absurd hhalt run_items_ne_incomplete
    · rw [parseWithin_of_hit hrun] at h
      exact ⟨hcomplete, .ofItems stop found, hitems.mpr ⟨found, hrun, rfl⟩, (hfinish hcomplete).mp h⟩
  · rintro ⟨hcomplete, d, hd, hcheck⟩
    obtain ⟨found, hrun, hd⟩ := hitems.mp hd
    rw [parseWithin_of_hit hrun, ← hd]
    exact (hfinish hcomplete).mpr hcheck

/-- A document stops in the text that it is of. -/
theorem text_stop_of_parseWithin {d : Document} (h : parseWithin depth o t = .ok d) : d.stop.text = t := by
  obtain ⟨found, -, hrun⟩ := exists_run_items_of_parseWithin h
  exact text_eq_of_le (o.items.le_of_hit (Rule.forward depth) hrun)

end Incomplete

/-- Positions identify offsets. Of two places of one text, the one with the smaller offset is on the earlier line, or further
left on the same line, and the other way round. Every place is found again from its line and its column, by going from the
start of the text past the newlines before the line and then past the characters before the column. So the line and the column
that a document which stops before the end fails the check with, and that a parse which has to reach the end then gives, lead
to the place where the document stops, and are those of no other offset of its text. -/
theorem positions_identify_offsets :
    (∀ c d : Cursor, c.text = d.text →
      (c.offset < d.offset ↔ c.line < d.line ∨ c.line = d.line ∧ c.column < d.column)) ∧
    (∀ c : Cursor, placeAt? c.text c.line c.column = some c) ∧
    (∀ (d : Document) line column window, d.check = .error (.incomplete line column window) ↔
      d.isComplete = false ∧ d.stop.NamedBy line column ∧ window = d.stop.window reportWidth) ∧
    ∀ depth o t line column window, parseWithin depth o t = .error (.fault (.incomplete line column window)) ↔
      o.requireComplete ∧ ∃ d, parseWithin depth { o with requireComplete := false } t = .ok d ∧ d.stop.text = t ∧
        d.isComplete = false ∧ d.stop.NamedBy line column ∧ window = d.stop.window reportWidth := by
  refine ⟨fun c d htext => ?_, placeAt?_line_column, fun _ _ _ _ => Document.check_eq_incomplete_iff, ?_⟩
  · rw [offset_lt_iff htext]
    exact Prod.Lex.toLex_lt_toLex
  · intro depth o t line column window
    rw [parseWithin_eq_incomplete_iff]
    refine and_congr_right fun _ => exists_congr fun d => and_congr_right fun hd => ?_
    rw [Document.check_eq_incomplete_iff, and_iff_right (text_stop_of_parseWithin hd)]

/-- A parse of this text stops in the middle of its second line. The five characters before the place on its line take six
bytes, and the first line has one more byte than characters too; the second line and the sixth column are those of the offset
25, and every place before is on the first line or further left. -/
theorem positions_identify_offsets_mid_line :
    parseWith (Options.complete {}) "module É exposing\n (é) import X".toList =
        .error (.fault (.incomplete 2 6 "import X".toList)) ∧
      ∃ d, parseWith {} "module É exposing\n (é) import X".toList = .ok d ∧ d.stop.offset = 25 ∧
        d.check = .error (.incomplete 2 6 "import X".toList) ∧ d.stop.NamedBy 2 6 ∧
        ∀ c : Cursor, c.text = "module É exposing\n (é) import X".toList → c.offset < 25 →
          c.line < 2 ∨ c.line = 2 ∧ c.column < 6 := by
  have hparse : parseWith (Options.complete {}) "module É exposing\n (é) import X".toList =
      .error (.fault (.incomplete 2 6 "import X".toList)) := by decide +kernel
  obtain ⟨hordered, -, hchecks, hparses⟩ := positions_identify_offsets
  obtain ⟨-, d, hd, htext, -, ⟨hleads, -⟩, -⟩ := (hparses _ _ _ _ _ _).mp hparse
  obtain ⟨nodes, stop⟩ := d
  -- The place that the line and the column lead to.
  have hplace : placeAt? "module É exposing\n (é) import X".toList 2 6 =
      some ⟨"module É exposing\n (é) ".toList.reverse, "import X".toList⟩ := by decide +kernel
  obtain rfl : stop = ⟨"module É exposing\n (é) ".toList.reverse, "import X".toList⟩ := by
    rw [htext, hplace] at hleads
    exact (Option.some.inj hleads).symm
  have hoffset : (Cursor.mk "module É exposing\n (é) ".toList.reverse "import X".toList).offset = 25 := by decide +kernel
  have hcheck : Document.check ⟨nodes, ⟨"module É exposing\n (é) ".toList.reverse, "import X".toList⟩⟩ =
      .error (.incomplete 2 6 "import X".toList) := rfl
  refine ⟨hparse, _, hd, hoffset, hcheck, ((hchecks _ _ _ _).mp hcheck).2.1, fun c hc hbefore => ?_⟩
  exact (hordered c _ (hc.trans htext.symm)).mp (hoffset.symm ▸ hbefore)

end Offside
