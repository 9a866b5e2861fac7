import Offside.Proofs.Document.Faults
import Offside.Proofs.Parser.Prefix

/-!
# Stopping and resuming

A parse that stops at a marker is the beginning of the parse that does not: its items are matched in the same way up to
where it stops. Where that is the start of a line, the rest can be parsed as a text of its own, and gives what was left.
-/

namespace Offside

open Cursor

/-! ## Repetitions that are cut short -/

section Cut

variable {α : Type} {step step' : Cursor → Outcome α} {c d : Cursor} {values : List α}

/-- The second repetition goes on from where the first, which may miss some matches, stops. -/
theorem repeatFrom_of_cut (hstep : ∀ c, step' c = .miss ∨ step' c = step c) (h : repeatFrom step' c = .hit d values) :
    repeatFrom step c = (repeatFrom step d).bind fun last more => .hit last (values ++ more) := by
  have hnone : ∀ o : Outcome (List α), o = o.bind fun last more => .hit last ([] ++ more) := by
    intro o
    cases o <;> rfl
  fun_induction repeatFrom step' c generalizing values with
  | case1 c stop value hs hlt ih =>
    obtain ⟨last, rest, hr, hv⟩ := Outcome.bind_eq_hit.mp h
    obtain ⟨rfl, rfl⟩ : last = d ∧ value :: rest = values := by simpa using hv
    have hs' : step c = .hit stop value := by
      rcases hstep c with hmiss | hsame
      · simp [hs] at hmiss
      · rw [← hsame, hs]
    rw [repeatFrom_of_lt hs' hlt, ih hr]
    cases repeatFrom step last <;> rfl
  | case2 c stop value hs hlt =>
    obtain ⟨rfl, rfl⟩ : c = d ∧ [] = values := by simpa using h
    exact hnone _
  | case3 c hs =>
    obtain ⟨rfl, rfl⟩ : c = d ∧ [] = values := by simpa using h
    exact hnone _
  | case4 c why hs => cases h

/-- What brings the first repetition to a halt brings the second to a halt. -/
theorem repeatFrom_halt_of_cut {why : Halt} (hstep : ∀ c, step' c = .miss ∨ step' c = step c)
    (h : repeatFrom step' c = .halt why) : repeatFrom step c = .halt why := by
  obtain ⟨place, hsteps, hplace⟩ := steps_of_repeatFrom_halt h
  have hsame {d : Cursor} {o : Outcome α} (hd : step' d = o) (ho : o ≠ .miss) : step d = o := by
    rcases hstep d with hmiss | hsame
    · exact absurd (hd.symm.trans hmiss) ho
    · rw [← hsame, hd]
  refine repeatFrom_halt_of_steps ?_ (hsame hplace (by simp))
  clear hplace h
  induction hsteps with
  | here c => exact .here c
  | ahead hit lt _ ih => exact .ahead (hsame hit (by simp)) lt ih

end Cut

/-- A parser that gives way where a test holds misses there, and elsewhere is what it was. -/
theorem Parser.choose_fail_eq {call : Rule → Cursor → Outcome Node} {α : Type} (test : Test) (p : Parser α) (c : Cursor) :
    (Parser.choose test .fail p).runWith call c = .miss ∨
      (Parser.choose test .fail p).runWith call c = p.runWith call c := by
  simp only [Parser.runWith]
  split
  · exact Or.inl rfl
  · exact Or.inr rfl

/-! ## Documents that are cut short -/

namespace Options

variable {o : Options} (hmarker : o.stopMarker = none) {depth : Nat} {marker : Text} {c stop : Cursor} {found : List Node}

include hmarker

theorem run_items_eq : o.items.run depth c = repeatFrom (o.item.run depth) c := by
  rw [items, hmarker]
  rfl

/-- The items up to a marker are those that would be matched without it, and from where they stop the others follow. -/
theorem run_items_of_stopAt (h : (o.stopAt marker).items.run depth c = .hit stop found) :
    o.items.run depth c = (o.items.run depth stop).bind fun last more => .hit last (found ++ more) := by
  rw [run_items_eq hmarker, run_items_eq hmarker]
  exact repeatFrom_of_cut (fun d => Parser.choose_fail_eq (.ahead marker) o.item d) h

/-- What halts the items up to a marker halts the items without it. -/
theorem run_items_halt_of_stopAt {why : Halt} (h : (o.stopAt marker).items.run depth c = .halt why) :
    o.items.run depth c = .halt why := by
  rw [run_items_eq hmarker]
  exact repeatFrom_halt_of_cut (fun d => Parser.choose_fail_eq (.ahead marker) o.item d) h

omit hmarker

/-- From the start of a line on, the items are those of the rest as a text of its own. -/
theorem run_items_inStep_rest (hcolumn : c.column = 1) :
    (o.items.run depth (.start c.rest)).InStep (IsAfter c.past.reverse) (· = ·) (o.items.run depth c) := by
  have hlines := wholeLines_of_column hcolumn
  have hboth := o.items.inStep_after hlines (Rule.inStep_after hlines depth) (.start c.rest)
  rwa [start_rest_after] at hboth

end Options

/-! ## Documents in parts -/

section Parts

variable {o : Options} (hcomplete : o.requireComplete = false) (hmarker : o.stopMarker = none) {depth : Nat}
  {t marker : Text}

include hcomplete hmarker

/-- A parse that exceeds its depth up to a marker exceeds it without the marker. -/
theorem parseWithin_ne_tooDeep_of_stopAt (h : parseWithin depth o t ≠ .error .tooDeep) :
    parseWithin depth (o.stopAt marker) t ≠ .error .tooDeep := by
  intro hdeep
  have hhalt := (parseWithin_eq_error_iff (o := o.stopAt marker) hcomplete).mp hdeep
  exact h (parseWithin_of_halt (o.run_items_halt_of_stopAt hmarker hhalt))

/-- What is parsed up to a marker is the beginning of what is parsed without it. -/
theorem exists_part_of_parseWithin {whole : Document} (h : parseWithin depth o t = .ok whole) :
    ∃ part, parseWithin depth (o.stopAt marker) t = .ok part ∧ part.nodes <+: whole.nodes ∧ part.stop ≤ whole.stop := by
  obtain ⟨found, hrun, hwhole⟩ := (parseWithin_eq_ok_iff hcomplete).mp h
  cases hpart : (o.stopAt marker).items.run depth (.start t) with
  | miss => exact absurd hpart run_items_ne_miss
  | halt why =>
    rw [o.run_items_halt_of_stopAt hmarker hpart] at hrun
    cases hrun
  | hit stop first =>
    rw [o.run_items_of_stopAt hmarker hpart] at hrun
    obtain ⟨last, more, hmore, hlast⟩ := Outcome.bind_eq_hit.mp hrun
    obtain ⟨rfl, rfl⟩ : last = whole.stop ∧ first ++ more = found := by simpa using hlast
    refine ⟨.ofItems stop first, (parseWithin_eq_ok_iff (o := o.stopAt marker) hcomplete).mpr ⟨first, hpart, rfl⟩, ?_, ?_⟩
    · rw [hwhole]
      simp [Document.ofItems]
    · exact o.items.le_of_hit (Rule.forward depth) hmore

/-- From the start of a line where a marker was reached, the items of the rest are the items that are left. -/
theorem run_items_of_part {part : Document} (h : parseWithin depth (o.stopAt marker) t = .ok part)
    (hcolumn : part.stop.column = 1) :
    ∃ first left, part = .ofItems part.stop first ∧
      (o.items.run depth (.start part.rest)).InStep (IsAfter part.stop.past.reverse) (· = ·) left ∧
        o.items.run depth (.start t) = left.bind fun last more => .hit last (first ++ more) := by
  obtain ⟨first, hrun, hpart⟩ := (parseWithin_eq_ok_iff (o := o.stopAt marker) hcomplete).mp h
  exact ⟨first, _, hpart, Options.run_items_inStep_rest hcolumn, o.run_items_of_stopAt hmarker hrun⟩

end Parts

/-- Stopping at a marker and resuming. What is parsed up to a marker is the beginning of what is parsed without it. If it
stops at the first column, the rest as a text of its own is parsed just if the whole text is, and what it gives follows
what was parsed before. -/
theorem stopping_and_resuming (recover : Bool) (t marker : Text) {m n : Nat}
    (hm : parseWithin m (Options.stopAt { recover } marker) t ≠ .error .tooDeep)
    (hn : parseWithin n { recover } t ≠ .error .tooDeep) :
    (∀ whole, parseWithin n { recover } t = .ok whole →
      ∃ part, parseWithin m (Options.stopAt { recover } marker) t = .ok part ∧ part.nodes <+: whole.nodes ∧
        part.stop ≤ whole.stop ∧ part.stop.offset ≤ whole.stop.offset) ∧
    ∀ part, parseWithin m (Options.stopAt { recover } marker) t = .ok part → part.stop.column = 1 →
      parseWithin n { recover } part.rest ≠ .error .tooDeep ∧
      ∀ k, parseWithin k { recover } part.rest ≠ .error .tooDeep →
        ((∃ whole, parseWithin n { recover } t = .ok whole) ↔ ∃ more, parseWithin k { recover } part.rest = .ok more) ∧
        ∀ whole more, parseWithin n { recover } t = .ok whole → parseWithin k { recover } part.rest = .ok more →
          whole.nodes = part.nodes ++ more.nodes ∧ whole.stop = more.stop.after part.stop.past.reverse ∧
            whole.stop.offset = part.stop.offset + more.stop.offset := by
  have hcomplete : Options.requireComplete { recover } = false := rfl
  have hmarker : Options.stopMarker { recover } = none := rfl
  rw [parseWithin_eq_of_ne_tooDeep hm (parseWithin_ne_tooDeep_of_stopAt hcomplete hmarker hn)]
  refine ⟨fun whole hwhole => ?_, fun part hpart hcolumn => ?_⟩
  · obtain ⟨part, hpart, hnodes, hle⟩ := exists_part_of_parseWithin hcomplete hmarker hwhole
    exact ⟨part, hpart, hnodes, hle, offset_le_of_le hle⟩
  obtain ⟨first, left, hfirst, hstep, hwhole⟩ := run_items_of_part hcomplete hmarker hpart hcolumn
  have hreturns : parseWithin n { recover } part.rest ≠ .error .tooDeep := by
    intro hdeep
    rw [(parseWithin_eq_error_iff hcomplete).mp hdeep] at hstep
    cases hstep with
    | halt alike =>
      cases alike
      exact hn (parseWithin_of_halt hwhole)
  refine ⟨hreturns, fun k hk => ?_⟩
  rw [parseWithin_eq_of_ne_tooDeep hk hreturns]
  refine ⟨?_, fun whole more hok hmore => ?_⟩
  · rw [exists_parseWithin_eq_ok_iff hcomplete, exists_parseWithin_eq_ok_iff hcomplete, hstep.isHit, hwhole]
    cases left <;> simp [Outcome.bind]
  · obtain ⟨found, hrun, hdocument⟩ := (parseWithin_eq_ok_iff hcomplete).mp hok
    obtain ⟨second, hsecond, hrest⟩ := (parseWithin_eq_ok_iff hcomplete).mp hmore
    rw [hsecond] at hstep
    cases hstep with
    | hit stop related =>
      subst related
      obtain ⟨hstop, hfound⟩ : _ = whole.stop ∧ first ++ second = found := by
        simpa [Outcome.bind, hwhole] using hrun
      have hplace : whole.stop = more.stop.after part.stop.past.reverse := hstop ▸ stop
      refine ⟨?_, hplace, ?_⟩
      · rw [hdocument, hfirst, hrest, ← hfound]
        simp [Document.ofItems]
      · rw [hplace, offset_after, utf8Size_reverse]
        rfl

/-- A marker after an import, which the rest begins with: the import is parsed up to it, and the rest gives the other. -/
theorem stopping_and_resuming_import :
    parseWith (Options.stopAt {} "import B".toList) "import A\nimport B\n".toList ≠ .error .tooDeep ∧
    parseWith {} "import A\nimport B\n".toList ≠ .error .tooDeep ∧
    ∃ part more whole, parseWith (Options.stopAt {} "import B".toList) "import A\nimport B\n".toList = .ok part ∧
      part.rest = "import B\n".toList ∧ part.stop.column = 1 ∧
      parseWithin 1 {} "import B\n".toList = .ok more ∧ parseWith {} "import A\nimport B\n".toList = .ok whole ∧
      whole.nodes = part.nodes ++ more.nodes ∧ whole.stop.offset = part.stop.offset + more.stop.offset := by
  have hpart : parseWith (Options.stopAt {} "import B".toList) "import A\nimport B\n".toList =
      .ok ⟨[.importDecl "A".toList []], ⟨"import A\n".toList.reverse, "import B\n".toList⟩⟩ := by decide +kernel
  have hmore : parseWithin 1 {} "import B\n".toList =
      .ok ⟨[.importDecl "B".toList []], ⟨"import B\n".toList.reverse, []⟩⟩ := by decide +kernel
  have hwhole : parseWith {} "import A\nimport B\n".toList =
      .ok ⟨[.importDecl "A".toList [], .importDecl "B".toList []], ⟨"import A\nimport B\n".toList.reverse, []⟩⟩ := by
    decide +kernel
  have hm : parseWith (Options.stopAt {} "import B".toList) "import A\nimport B\n".toList ≠ .error .tooDeep := by
    rw [hpart]
    simp
  have hn : parseWith {} "import A\nimport B\n".toList ≠ .error .tooDeep := by
    rw [hwhole]
    simp
  have hk : parseWithin 1 {} "import B\n".toList ≠ .error .tooDeep := by
    rw [hmore]
    simp
  obtain ⟨-, hparts⟩ := (stopping_and_resuming false _ _ hm hn).2 _ hpart (by decide)
  obtain ⟨-, hsum⟩ := hparts 1 hk
  obtain ⟨hnodes, -, hoffset⟩ := hsum _ _ hwhole hmore
  exact ⟨hm, hn, _, _, _, hpart, rfl, by decide, hmore, hwhole, hnodes, hoffset⟩

end Offside
