import Offside.Proofs.Document.Faults

/-!
# Recovery reaches the end

With recovery there is an item wherever the text goes on, and it gets ahead, so the items of a document go on to the end
of the text, or up to where the stop marker comes next.
-/

namespace Offside

open Cursor

section Recovery

variable {depth : Nat} {o : Options} {t : Text} {stop : Cursor} {found : List Node}

/-- With recovery an item stands still at the end of the text only. -/
theorem Options.isDone_of_item_stuck (hrecover : o.recover) {c : Cursor}
    (h : o.item.run depth c = .miss ∨ ∃ stop v, o.item.run depth c = .hit stop v ∧ ¬stop.rest.length < c.rest.length) :
    c.isDone := by
  have hitem := o.item_ensures (Rule.good depth) c
  rcases h with hmiss | ⟨stop, v, hhit, hstuck⟩
  · have hno := hitem.misses hmiss
    rw [hrecover] at hno
    cases hno
  · by_contra hdone
    have hlt := (hitem.hits stop v hhit).1 (by simpa using hdone)
    exact hstuck (lt_iff.mp hlt).2

/-- With recovery the items stop at the end of the text, or before the stop marker. -/
theorem Options.isDone_or_peek_of_run_items (hrecover : o.recover) (h : o.items.run depth (.start t) = .hit stop found) :
    stop.isDone ∨ ∃ marker, o.stopMarker = some marker ∧ stop.peek marker := by
  unfold items at h
  cases hmarker : o.stopMarker with
  | none =>
    rw [hmarker] at h
    exact Or.inl (isDone_of_item_stuck hrecover (repeatFrom_stuck h))
  | some marker =>
    rw [hmarker] at h
    by_cases hpeek : stop.peek marker
    · exact Or.inr ⟨marker, rfl, hpeek⟩
    · left
      have hstuck := repeatFrom_stuck h
      -- Where the marker does not come next, the choice is the item.
      have hchoose : (Parser.choose (.ahead marker) .fail o.item).runWith (Rule.run depth) stop = o.item.run depth stop := by
        rw [Parser.runWith, Test.holds, if_neg hpeek, Parser.run]
      rw [hchoose] at hstuck
      exact isDone_of_item_stuck hrecover hstuck

/-- What has reached the end passes the check for it. -/
theorem parseWithin_of_isDone (h : o.items.run depth (.start t) = .hit stop found) (hdone : stop.isDone) :
    parseWithin depth o t = .ok (.ofItems stop found) := by
  rw [parseWithin_of_hit h]
  unfold parseWithin.finish Document.check
  simp [Document.isComplete, Document.ofItems, hdone, Except.mapError]

/-- With recovery and no stop marker the items stop at the end of the text. -/
theorem Options.isDone_of_run_items (hrecover : o.recover) (hmarker : o.stopMarker = none)
    (h : o.items.run depth (.start t) = .hit stop found) : stop.isDone := by
  rcases isDone_or_peek_of_run_items hrecover h with hdone | ⟨marker, hsome, -⟩
  · exact hdone
  · rw [hmarker] at hsome
    cases hsome

end Recovery

/-- Recovery is total. Without a stop marker a parse with recovery that returns a document has reached the end of the
text, and asking it to do so changes nothing: it never turns out incomplete. With a stop marker it has reached the end of
the text, or a place where the marker comes next. -/
theorem recovery_is_total (depth : Nat) (o : Options) (t : Text) (hrecover : o.recover = true) :
    (o.stopMarker = none →
      (∀ d, parseWithin depth o t = .ok d →
        d.stop = (Cursor.start t).advance t.length ∧ parseWithin depth o.complete t = .ok d) ∧
      ∀ line column window, parseWithin depth o.complete t ≠ .error (.fault (.incomplete line column window))) ∧
    ∀ marker d, o.stopMarker = some marker → parseWithin depth o t = .ok d →
      d.stop.text = t ∧ (d.isComplete ∨ marker <+: d.rest) := by
  refine ⟨fun hmarker => ⟨fun d hd => ?_, fun line column window hincomplete => ?_⟩, fun marker d hmarker hd => ?_⟩
  · obtain ⟨found, hitems, hrun⟩ := exists_run_items_of_parseWithin hd
    have hdone := Options.isDone_of_run_items hrecover hmarker hrun
    refine ⟨eq_end_of_isDone (o.items.le_of_hit (Rule.forward depth) hrun) hdone, ?_⟩
    -- The items are the same whether or not they have to reach the end.
    have hcomplete : o.complete.items.run depth (.start t) = .hit d.stop found := hrun
    rw [parseWithin_of_isDone hcomplete hdone, ← hitems]
  · rcases parseWithin_eq_error hincomplete with hhalt | ⟨-, stop, found, hrun, hdone, -⟩
    · rcases (o.complete.items_ensures (Rule.good depth) t).halts _ hhalt with htoo | ⟨fault, hfault, hexpected, -⟩
      · cases htoo
      · obtain ⟨offset, shown, rfl⟩ := hexpected
        cases hfault
    · have hreached := Options.isDone_of_run_items (o := o.complete) hrecover hmarker hrun
      rw [hdone] at hreached
      cases hreached
  · obtain ⟨found, -, hrun⟩ := exists_run_items_of_parseWithin hd
    refine ⟨text_eq_of_le (o.items.le_of_hit (Rule.forward depth) hrun), ?_⟩
    rcases Options.isDone_or_peek_of_run_items hrecover hrun with hdone | ⟨marker', hmarker', hpeek⟩
    · exact Or.inl hdone
    · obtain rfl : marker = marker' := by simpa [hmarker] using hmarker'
      exact Or.inr (List.isPrefixOf_iff_prefix.mp hpeek)

/-- A line that no rule understands is kept, and the parse reaches the end, or the marker on the next line. -/
theorem recovery_is_total_unknown_line :
    (Options.recovering {}).recover = true ∧
    parseWith (.recovering {}) "?".toList = .ok ⟨[.unparsed "?".toList], (Cursor.start "?".toList).advance 1⟩ ∧
    parseWith (Options.recovering {}).complete "?".toList =
      .ok ⟨[.unparsed "?".toList], (Cursor.start "?".toList).advance 1⟩ ∧
    ∃ d, parseWith ((Options.recovering {}).stopAt "!".toList) "?\n!".toList = .ok d ∧
      (d.isComplete ∨ "!".toList <+: d.rest) := by
  have hline : parseWith (.recovering {}) "?".toList =
      .ok ⟨[.unparsed "?".toList], (Cursor.start "?".toList).advance 1⟩ := by decide +kernel
  have hmarker : parseWith ((Options.recovering {}).stopAt "!".toList) "?\n!".toList =
      .ok ⟨[.unparsed "?".toList], ⟨"\n?".toList, "!".toList⟩⟩ := by decide +kernel
  have htotal := recovery_is_total (depthBound "?".toList) (.recovering {}) "?".toList rfl
  have hstop := recovery_is_total (depthBound "?\n!".toList) ((Options.recovering {}).stopAt "!".toList) "?\n!".toList rfl
  exact ⟨rfl, hline, ((htotal.1 rfl).1 _ hline).2, _, hmarker, (hstop.2 "!".toList _ rfl hmarker).2⟩

end Offside
