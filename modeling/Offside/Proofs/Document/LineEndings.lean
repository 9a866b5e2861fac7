import Offside.Proofs.Document.Faults
import Offside.Proofs.LineEndings.Grammar

/-!
# Line endings do not matter

A text whose lines end in a carriage return and a newline is parsed as the text with bare newlines: the nodes are the same
but for the carriage returns in their texts, and both parses fail together and reach the end together.
-/

namespace Offside

open Cursor Offside.Parser

/-! ## Items -/

namespace Options

variable {call : Rule → Cursor → Outcome Node} (hgood : Good call) (hrules : RulesSteady call) (o : Options)

include hgood hrules

theorem item_steady : o.item.Steady call IsBareNode := by
  have htop := Grammar.topLevelItem_steady hgood hrules
  unfold item
  split
  · exact .or htop (Grammar.statement_steady hgood.forward)
  · exact htop

/-- The items are the same, whichever line endings there are, if the marker holds none. -/
theorem items_steady (hmarker : ∀ marker, o.stopMarker = some marker → marker.Plain) :
    o.items.Steady call AreBareNodes := by
  have hitem := item_steady hgood hrules o
  have hahead : ∀ c d v, o.item.runWith call c = .hit d v → c.isDone = false → c < d := fun c d v hrun =>
    ((item_ensures hgood o c).hits d v hrun).1
  unfold items
  split
  · next marker hsome =>
    refine .named <| .manyNodes (.choose (hmarker marker hsome) .fail hitem) fun c d v hrun => ?_
    unfold runWith at hrun
    split at hrun
    · cases hrun
    · exact hahead c d v hrun
  · exact .manyNodes hitem hahead

end Options

/-! ## Documents -/

section Documents

variable {o : Options} {t : Text} (ht : '\r' ∉ t) (hmarker : ∀ marker, o.stopMarker = some marker → marker.Plain)

include ht hmarker

/-- The items of a text are those of the text with carriage returns, but for these. -/
theorem run_items_withReturns (depth : Nat) :
    (o.items.run depth (.start t)).InStep IsBare AreBareNodes (o.items.run depth (.start t.withReturns)) := by
  have hsteady := o.items_steady (Rule.good depth) (Rule.steady depth) hmarker
  have hboth := hsteady (.start t.withReturns) (Text.paired_withReturns ht)
  rwa [bare_start, Text.bare_withReturns ht] at hboth

variable (hcomplete : o.requireComplete = false) {depth : Nat}

include hcomplete

/-- With carriage returns a parse fails just if it does without them, and for the same kind of reason. -/
theorem parseWithin_withReturns_eq_error {why' : Halt} (h : parseWithin depth o t.withReturns = .error why') :
    ∃ why, parseWithin depth o t = .error why ∧ why.Alike why' :=
  parseWithin_eq_error_left hcomplete (run_items_withReturns ht hmarker depth) h

theorem parseWithin_eq_error_withReturns {why : Halt} (h : parseWithin depth o t = .error why) :
    ∃ why', parseWithin depth o t.withReturns = .error why' ∧ why.Alike why' :=
  parseWithin_eq_error_right hcomplete (run_items_withReturns ht hmarker depth) h

/-- The documents are the same but for the carriage returns. -/
theorem nodes_withReturns {d d' : Document} (h : parseWithin depth o t = .ok d)
    (h' : parseWithin depth o t.withReturns = .ok d') :
    d.nodes = d'.nodes.map Node.bare ∧ d.isComplete = d'.isComplete := by
  obtain ⟨found, found', hd, hd', hstop, related⟩ :=
    exists_items_of_parseWithin hcomplete (run_items_withReturns ht hmarker depth) h h'
  have hnodes : d.nodes = d'.nodes.map Node.bare := by
    rw [hd, hd', related]
    exact Node.filter_bare found'
  exact ⟨hnodes, keepsLayout_bare.isDone hstop⟩

end Documents

/-- Line endings do not matter. For a text without carriage returns and options with a marker without line endings, if any,
and no need to reach the end: where the parse of the text returns, and the parse of the text with a carriage return before
every newline does, one fails just if the other does; where they do not, the nodes are the same once the carriage returns
are taken out of every text in them, and one document is complete just if the other is. -/
theorem line_endings_do_not_matter {o : Options} {t : Text} (ht : '\r' ∉ t) (hcomplete : o.requireComplete = false)
    (hmarker : ∀ marker, o.stopMarker = some marker → '\r' ∉ marker ∧ '\n' ∉ marker) {m n : Nat}
    (hm : parseWithin m o t ≠ .error .tooDeep) (hn : parseWithin n o t.withReturns ≠ .error .tooDeep) :
    ((∃ why', parseWithin n o t.withReturns = .error why') ↔ ∃ why, parseWithin m o t = .error why) ∧
      ∀ d d', parseWithin m o t = .ok d → parseWithin n o t.withReturns = .ok d' →
        d'.nodes.map Node.bare = d.nodes ∧ (d'.isComplete ↔ d.isComplete) := by
  have hreturns : parseWithin m o t.withReturns ≠ .error .tooDeep := by
    intro hdeep
    obtain ⟨why, hwhy, halike⟩ := parseWithin_withReturns_eq_error ht hmarker hcomplete hdeep
    cases halike
    exact hm hwhy
  rw [parseWithin_eq_of_ne_tooDeep hn hreturns]
  refine ⟨⟨?_, ?_⟩, fun d d' hd hd' => ?_⟩
  · rintro ⟨why', hwhy'⟩
    obtain ⟨why, hwhy, -⟩ := parseWithin_withReturns_eq_error ht hmarker hcomplete hwhy'
    exact ⟨why, hwhy⟩
  · rintro ⟨why, hwhy⟩
    obtain ⟨why', hwhy', -⟩ := parseWithin_eq_error_withReturns ht hmarker hcomplete hwhy
    exact ⟨why', hwhy'⟩
  · obtain ⟨hnodes, hdone⟩ := nodes_withReturns ht hmarker hcomplete hd hd'
    exact ⟨hnodes.symm, by rw [hdone]⟩

/-- A tuple over two lines keeps the carriage return between them, and both parses stop at the marker after it. -/
theorem line_endings_do_not_matter_tuple :
    ∃ d d', parseWith (.stopAt {} "g".toList) "f =\n (a\n  b)\ng".toList = .ok d ∧
      parseWith (.stopAt {} "g".toList) (Text.withReturns "f =\n (a\n  b)\ng".toList) = .ok d' ∧
      d.nodes = [.binding ⟨⟨"f".toList, []⟩, .tuple "a\n  b".toList⟩] ∧
      d'.nodes = [.binding ⟨⟨"f".toList, []⟩, .tuple "a\r\n  b".toList⟩] ∧
      d'.nodes.map Node.bare = d.nodes ∧ (d'.isComplete ↔ d.isComplete) := by
  have hd : parseWith (.stopAt {} "g".toList) "f =\n (a\n  b)\ng".toList =
      .ok ⟨[.binding ⟨⟨"f".toList, []⟩, .tuple "a\n  b".toList⟩], ⟨"f =\n (a\n  b)\n".toList.reverse, "g".toList⟩⟩ := by
    decide +kernel
  have hd' : parseWith (.stopAt {} "g".toList) (Text.withReturns "f =\n (a\n  b)\ng".toList) =
      .ok ⟨[.binding ⟨⟨"f".toList, []⟩, .tuple "a\r\n  b".toList⟩],
        ⟨"f =\r\n (a\r\n  b)\r\n".toList.reverse, "g".toList⟩⟩ := by
    decide +kernel
  have hmarker : ∀ marker, (Options.stopAt {} "g".toList).stopMarker = some marker → '\r' ∉ marker ∧ '\n' ∉ marker := by
    rintro _ ⟨⟩
    decide
  have hm : parseWith (.stopAt {} "g".toList) "f =\n (a\n  b)\ng".toList ≠ .error .tooDeep := by
    rw [hd]
    simp
  have hn : parseWith (.stopAt {} "g".toList) (Text.withReturns "f =\n (a\n  b)\ng".toList) ≠ .error .tooDeep := by
    rw [hd']
    simp
  exact ⟨_, _, hd, hd', rfl, rfl, (line_endings_do_not_matter (by decide) rfl hmarker hm hn).2 _ _ hd hd'⟩

end Offside
