import Offside.Proofs.Document.Resuming

/-!
# Recovery only adds

A parse with recovery takes the items that the parse without it takes, and goes on where that one stops: the first node
that it adds is the statement there, as it is. What aborts the one aborts the other.
-/

namespace Offside

open Cursor Offside.Parser

/-! ## Statements that no rule understood -/

/-- A statement that no rule understood is its block where only blanks come before it on the line, and the rest of the line
elsewhere. -/
theorem Grammar.unparsed_of_hit_statement {call : Rule → Cursor → Outcome Node} {c d : Cursor} {v : Node}
    (h : statement.runWith call c = .hit d v) :
    ∃ span : Text, v = .unparsed span.trim ∧
      (c.atLineStart = true → ∃ stop, c.extentStop .block = .ok stop ∧ c.slice? stop = some span) ∧
        (c.atLineStart = false → span = c.restOfLine) := by
  obtain ⟨mid, captured, hgrab, hform⟩ := Outcome.bind_eq_hit.mp h
  obtain ⟨made, hmade, hstop⟩ := Outcome.ofExcept_eq_hit.mp hform
  obtain ⟨rfl, rfl⟩ : mid = d ∧ made = v := by simpa using hstop
  have hspan {span : Text} (hc : captured = .text span) : made = .unparsed span.trim := by
    subst hc
    exact (Except.ok.inj hmade).symm
  cases hstart : c.atLineStart with
  | true =>
    have hblock : (grab (extent .block)).runWith call c = .hit mid captured := by
      rwa [runWith, runWith, Test.holds, if_pos hstart] at hgrab
    obtain ⟨span, hextent, hslice, hc⟩ := hit_grab_iff.mp hblock
    obtain ⟨stop, hs, hv⟩ := Outcome.ofExcept_eq_hit.mp hextent
    obtain rfl : stop = mid := by simpa using hv
    exact ⟨span, hspan hc, fun _ => ⟨stop, hs, hslice⟩, fun h => by cases h⟩
  | false =>
    have hrest : (grab line).runWith call c = .hit mid captured := by
      rwa [runWith, runWith, Test.holds, hstart, if_neg Bool.false_ne_true] at hgrab
    obtain ⟨span, hline, hslice, hc⟩ := hit_grab_iff.mp hrest
    obtain rfl : c.skipWhile (· != '\n') = mid := by simpa using hit_line.symm.trans hline
    refine ⟨span, hspan hc, fun h => by (cases h), fun _ => ?_⟩
    obtain ⟨span', hslice', hpassed⟩ := slice?_of_le (le_skipWhile c (· != '\n'))
    obtain rfl : span = span' := by simpa [hslice] using hslice'
    exact eq_takeWhile_of_rest_eq hpassed

/-! ## One item with recovery and without -/

namespace Options

/-- One item of a document, unless the stop marker comes next. -/
def step (o : Options) : Parser Node :=
  match o.stopMarker with
  | some marker => .choose (.ahead marker) .fail o.item
  | none => o.item

variable {o : Options} {depth : Nat} {c d : Cursor}

/-- The items of a document are as many of its steps in a row as get ahead. -/
theorem run_items_eq_steps : o.items.run depth c = repeatFrom (o.step.run depth) c := by
  unfold items step
  cases o.stopMarker <;> rfl

variable (hplain : o.recover = false)

include hplain

/-- With recovery a step is what it is without, or else, before the marker, a statement as it is. -/
theorem run_step_recovering (depth : Nat) (c : Cursor) :
    o.recovering.step.run depth c = o.step.run depth c ∨
      o.step.run depth c = .miss ∧ o.recovering.step.run depth c = Grammar.statement.run depth c := by
  have hitem : o.recovering.item.run depth c = o.item.run depth c ∨
      o.item.run depth c = .miss ∧ o.recovering.item.run depth c = Grammar.statement.run depth c := by
    have hwith : o.recovering.item = Grammar.topLevelItem.or Grammar.statement := by simp [item, recovering]
    have hwithout : o.item = Grammar.topLevelItem := by simp [item, hplain]
    rw [hwith, hwithout]
    simp only [Parser.run, runWith]
    cases hrun : Grammar.topLevelItem.runWith (Rule.run depth) c with
    | hit stop v => exact Or.inl rfl
    | miss => exact Or.inr ⟨rfl, rfl⟩
    | halt why => exact Or.inl rfl
  unfold step
  have hmarker : o.recovering.stopMarker = o.stopMarker := rfl
  rw [hmarker]
  cases o.stopMarker with
  | none => exact hitem
  | some marker =>
    simp only [Parser.run, runWith]
    split
    · exact Or.inl rfl
    · exact hitem

/-- Without recovery a step misses, or is what it is with recovery. -/
theorem run_step_eq_miss_or_eq (c : Cursor) :
    o.step.run depth c = .miss ∨ o.step.run depth c = o.recovering.step.run depth c := by
  rcases run_step_recovering hplain depth c with hsame | ⟨hmiss, -⟩
  · exact Or.inr hsame.symm
  · exact Or.inl hmiss

/-! ## All items with recovery and without -/

/-- With recovery the items go on from where they stop without it. -/
theorem run_items_recovering {found : List Node} (h : o.items.run depth c = .hit d found) :
    o.recovering.items.run depth c =
      (o.recovering.items.run depth d).bind fun last more => .hit last (found ++ more) := by
  rw [run_items_eq_steps] at h
  rw [run_items_eq_steps, run_items_eq_steps]
  exact repeatFrom_of_cut (run_step_eq_miss_or_eq hplain) h

/-- What halts the items without recovery halts them with it. -/
theorem run_items_recovering_halt {why : Halt} (h : o.items.run depth c = .halt why) :
    o.recovering.items.run depth c = .halt why := by
  rw [run_items_eq_steps] at h
  rw [run_items_eq_steps]
  exact repeatFrom_halt_of_cut (run_step_eq_miss_or_eq hplain) h

/-- Where the items stop without recovery, there are no more with it, or the first is a statement as it is. -/
theorem run_items_recovering_stop {found more : List Node} {last : Cursor} (h : o.items.run depth c = .hit d found)
    (hmore : o.recovering.items.run depth d = .hit last more) :
    last = d ∧ more = [] ∨
      ∃ stop v rest, Grammar.statement.run depth d = .hit stop v ∧ more = v :: rest := by
  rw [run_items_eq_steps] at h hmore
  rcases run_step_recovering hplain depth d with hsame | ⟨-, hstatement⟩
  · -- The step stands still here, with recovery as without.
    left
    rcases repeatFrom_stuck h with hmiss | ⟨stop, v, hstop, hlt⟩
    · rw [repeatFrom_of_miss (hsame.trans hmiss)] at hmore
      simpa [eq_comm] using hmore
    · rw [repeatFrom_of_not_lt (hsame.trans hstop) hlt] at hmore
      simpa [eq_comm] using hmore
  · cases hrun : Grammar.statement.run depth d with
    | miss =>
      rw [repeatFrom_of_miss (hstatement.trans hrun)] at hmore
      exact Or.inl (by simpa [eq_comm] using hmore)
    | halt why =>
      rw [repeatFrom_of_halt (hstatement.trans hrun)] at hmore
      cases hmore
    | hit stop v =>
      by_cases hlt : stop.rest.length < d.rest.length
      · rw [repeatFrom_of_lt (hstatement.trans hrun) hlt] at hmore
        obtain ⟨last', rest, -, hlast⟩ := Outcome.bind_eq_hit.mp hmore
        obtain ⟨-, rfl⟩ : last' = last ∧ v :: rest = more := by simpa using hlast
        exact Or.inr ⟨stop, v, rest, rfl, rfl⟩
      · rw [repeatFrom_of_not_lt (hstatement.trans hrun) hlt] at hmore
        exact Or.inl (by simpa [eq_comm] using hmore)

end Options

/-! ## Documents with recovery and without -/

section Documents

variable {o : Options} (hplain : o.recover = false) (hcomplete : o.requireComplete = false) {depth : Nat} {t : Text}

include hplain hcomplete

/-- What aborts a parse aborts it with recovery too. -/
theorem parseWithin_recovering_eq_error {why : Halt} (h : parseWithin depth o t = .error why) :
    parseWithin depth o.recovering t = .error why :=
  parseWithin_of_halt (Options.run_items_recovering_halt hplain ((parseWithin_eq_error_iff hcomplete).mp h))

/-- With recovery a parse gives the nodes that it gives without, and what it adds begins with the statement where the
other stops. -/
theorem exists_added_of_parseWithin {plain whole : Document} (hok : parseWithin depth o t = .ok plain)
    (hwhole : parseWithin depth o.recovering t = .ok whole) :
    plain.stop ≤ whole.stop ∧ ∃ added, whole.nodes = plain.nodes ++ added ∧
      (whole.stop = plain.stop ∧ added = [] ∨
        ∃ stop v rest, Grammar.statement.run depth plain.stop = .hit stop v ∧ added = v :: rest) := by
  obtain ⟨found, hrun, hdocument⟩ := (parseWithin_eq_ok_iff hcomplete).mp hok
  obtain ⟨all, hall, hdocument'⟩ := (parseWithin_eq_ok_iff (o := o.recovering) hcomplete).mp hwhole
  rw [Options.run_items_recovering hplain hrun] at hall
  obtain ⟨last, more, hmore, hlast⟩ := Outcome.bind_eq_hit.mp hall
  obtain ⟨rfl, rfl⟩ : last = whole.stop ∧ found ++ more = all := by simpa using hlast
  refine ⟨o.recovering.items.le_of_hit (Rule.forward depth) hmore, more.filter (!·.isIgnore), ?_, ?_⟩
  · rw [hdocument, hdocument']
    simp [Document.ofItems]
  · rcases Options.run_items_recovering_stop hplain hrun hmore with ⟨hstop, rfl⟩ | ⟨stop, v, rest, hstatement, rfl⟩
    · exact Or.inl ⟨hstop, rfl⟩
    · obtain ⟨span, rfl, -⟩ := Grammar.unparsed_of_hit_statement hstatement
      exact Or.inr ⟨stop, _, rest.filter (!·.isIgnore), hstatement, rfl⟩

end Documents

/-- Recovery only adds. With any stop marker or none, and no need to reach the end: what aborts the parse without recovery
aborts the parse with it in the same way. Where both give a document, the nodes without recovery come first, and the parse
with recovery stops at the same place or further on. If it is further on, the first node that it adds is the trimmed text
of the block at the place where the other stops, if only blanks come before that on its line, and of the rest of that line
otherwise. -/
theorem recovery_only_adds (stopMarker : Option Text) (t : Text) {m n : Nat}
    (hm : parseWithin m { stopMarker } t ≠ .error .tooDeep)
    (hn : parseWithin n { stopMarker, recover := true } t ≠ .error .tooDeep) :
    (∀ why, parseWithin m { stopMarker } t = .error why →
      parseWithin n { stopMarker, recover := true } t = .error why) ∧
    ∀ plain whole, parseWithin m { stopMarker } t = .ok plain →
      parseWithin n { stopMarker, recover := true } t = .ok whole →
      plain.nodes <+: whole.nodes ∧ plain.stop.text = t ∧ plain.stop ≤ whole.stop ∧
        plain.stop.offset ≤ whole.stop.offset ∧
        (plain.stop.offset < whole.stop.offset → ∃ span more, whole.nodes = plain.nodes ++ .unparsed span.trim :: more ∧
          (plain.stop.atLineStart = true →
            ∃ stop, plain.stop.extentStop .block = .ok stop ∧ plain.stop.slice? stop = some span) ∧
          (plain.stop.atLineStart = false → span = plain.stop.restOfLine)) := by
  obtain ⟨o, ho⟩ : ∃ o : Options, o = { stopMarker } := ⟨_, rfl⟩
  have hplain : o.recover = false := by rw [ho]
  have hcomplete : o.requireComplete = false := by rw [ho]
  have hrecovering : { stopMarker, recover := true } = o.recovering := by rw [ho]; rfl
  rw [hrecovering] at hn ⊢
  rw [← ho] at hm ⊢
  have hreturns : parseWithin n o t ≠ .error .tooDeep := fun hdeep =>
    hn (parseWithin_recovering_eq_error hplain hcomplete hdeep)
  rw [parseWithin_eq_of_ne_tooDeep hm hreturns]
  refine ⟨fun why => parseWithin_recovering_eq_error hplain hcomplete, fun plain whole hok hwhole => ?_⟩
  obtain ⟨hle, added, hnodes, hadded⟩ := exists_added_of_parseWithin hplain hcomplete hok hwhole
  obtain ⟨found, -, hrun⟩ := exists_run_items_of_parseWithin hok
  have htext : plain.stop.text = t := text_eq_of_le (o.items.le_of_hit (Rule.forward n) hrun)
  refine ⟨⟨added, hnodes.symm⟩, htext, hle, offset_le_of_le hle, fun hlt => ?_⟩
  rcases hadded with ⟨hstop, -⟩ | ⟨stop, v, more, hstatement, rfl⟩
  · rw [hstop] at hlt
    exact absurd hlt (Nat.lt_irrefl _)
  · obtain ⟨span, rfl, hspan⟩ := Grammar.unparsed_of_hit_statement hstatement
    exact ⟨span, more, hnodes, hspan⟩

/-- After a header on the same line the rest of the line is added, and then the block below it. -/
theorem recovery_only_adds_after_header :
    parseWith {} "module M exposing (a) + b\n? c\n  d".toList ≠ .error .tooDeep ∧
    parseWith { recover := true } "module M exposing (a) + b\n? c\n  d".toList ≠ .error .tooDeep ∧
    ∃ plain whole, parseWith {} "module M exposing (a) + b\n? c\n  d".toList = .ok plain ∧
      parseWith { recover := true } "module M exposing (a) + b\n? c\n  d".toList = .ok whole ∧
      plain.stop.offset < whole.stop.offset ∧
      whole.nodes = plain.nodes ++ [.unparsed "+ b".toList, .unparsed "? c\n  d".toList] ∧ plain.nodes <+: whole.nodes := by
  obtain ⟨t, ht⟩ : ∃ t, t = "module M exposing (a) + b\n? c\n  d".toList := ⟨_, rfl⟩
  have hplain : parseWith {} t = .ok ⟨[.moduleDecl "M".toList ["a".toList]],
      ⟨"module M exposing (a) ".toList.reverse, "+ b\n? c\n  d".toList⟩⟩ := by
    rw [ht]
    decide +kernel
  have hwhole : parseWith { recover := true } t = .ok
      ⟨[.moduleDecl "M".toList ["a".toList], .unparsed "+ b".toList, .unparsed "? c\n  d".toList], ⟨t.reverse, []⟩⟩ := by
    rw [ht]
    decide +kernel
  have hm : parseWith {} t ≠ .error .tooDeep := by
    rw [hplain]
    simp
  have hn : parseWith { recover := true } t ≠ .error .tooDeep := by
    rw [hwhole]
    simp
  have hadds := (recovery_only_adds none t hm hn).2 _ _ hplain hwhole
  rw [← ht]
  refine ⟨hm, hn, _, _, hplain, hwhole, ?_, rfl, hadds.1⟩
  rw [ht]
  decide

end Offside
