import Offside.Proofs.Document.Completeness
import Offside.Proofs.FinalNewline.Expressions

/-!
# A final newline does not matter

A text that does not end where a body is still to come is parsed as with a newline after it: the nodes are the same, and
both parses fail together and reach the end together.
-/

namespace Offside

open Cursor Offside.Parser Agrees

variable {call : Rule → Cursor → Outcome Node}

/-! ## Items -/

namespace Grammar

/-- At the end of the text there is an empty statement. -/
theorem hit_statement_of_isDone {c : Cursor} (hdone : c.isDone) : statement.runWith call c = .hit c (.unparsed []) := by
  obtain ⟨past, rest⟩ := c
  obtain rfl : rest = [] := isDone_iff.mp hdone
  have hgrab {p : Parser Unit} (hp : p.runWith call ⟨past, []⟩ = .hit ⟨past, []⟩ ()) :
      (grab p).runWith call ⟨past, []⟩ = .hit ⟨past, []⟩ (.text []) :=
    hit_grab_iff.mpr ⟨[], hp, slice?_append (w := []), rfl⟩
  have hblock : (grab (extent .block)).runWith call ⟨past, []⟩ = .hit ⟨past, []⟩ (.text []) := by
    refine hgrab ?_
    simp [runWith, extentStop, skipBlock, isDone, Outcome.ofExcept]
  have hline : (grab line).runWith call ⟨past, []⟩ = .hit ⟨past, []⟩ (.text []) := hgrab hit_line
  have hchoose : (named "Statement" (choose .atLineStart (grab (extent .block)) (grab line))).runWith call ⟨past, []⟩ =
      .hit ⟨past, []⟩ (.text []) := by
    unfold runWith runWith
    split
    · exact hblock
    · exact hline
  exact hit_assemble hchoose rfl

/-- An empty statement is at the end of both texts; before it, both begin the line or neither does. -/
theorem statement_agrees (hcall : Forward call) : statement.Agrees call Level Trailing (· = ·) := by
  rintro c c' h
  rcases h.1 with ha | hb
  · have hblock : (grab (extent .block)).Agrees call Level Trailing Node.Trails :=
      Agrees.grab hcall Agrees.block fun _ _ h => h.1
    have hline : (grab line).Agrees call Level Trailing Node.Trails :=
      (Keeps.grab hcall .line).trailing.trails.level
    have hchoose : (named "Statement" (choose .atLineStart (grab (extent .block)) (grab line))).Agrees call
        (fun d d' => Level d d' ∧ Ahead d d') Trailing Node.Trails := fun d d' hd =>
      .choose (by rw [Test.holds, Test.holds, atLineStart, atLineStart, hd.2.lead]) (fun _ => hblock d d' hd.1)
        fun _ => hline d d' hd.1
    exact assemble_trails (by simp) hchoose.trailsOne c c' ⟨h, ha⟩
  · rw [hit_statement_of_isDone hb.isDone, hit_statement_of_isDone hb.isDone']
    exact .hit h.1 rfl

theorem topLevelItem_agrees (hgood : Good call) (hrules : RulesAgree call) :
    topLevelItem.Agrees call Level Trailing (· = ·) := by
  have hcall := hgood.forward
  have hblanks : (Parser.oneOf [spaceRequired, comment]).Agrees call Level Trailing (· = ·) :=
    oneOf <| firstOf_cons Agrees.spaceRequired <| firstOf_cons comment_keeps.trailing.level firstOf_nil
  exact named <| oneOf <| firstOf_cons (skip hblanks) <| firstOf_cons (moduleDecl_agrees hcall).level <|
    firstOf_cons (skip (Agrees.keywordBlock (by decide))).level <| firstOf_cons (importDecl_agrees hcall).level <|
    firstOf_cons (signature_agrees hcall).level <| firstOf_cons (typeDecl_agrees hcall).level <|
    firstOf_cons (binding_agrees hgood hrules).level firstOf_nil

/-- A newline that is all that is left is passed without a meaning. -/
theorem hit_topLevelItem_newline (past : Text) :
    topLevelItem.runWith call ⟨past, ['\n']⟩ = .hit ⟨'\n' :: past, []⟩ .ignore :=
  firstOf_of_hit (hit_skip (firstOf_of_hit (hit_spaceRequired rfl)))

end Grammar

namespace Options

variable (hgood : Good call) (hrules : RulesAgree call) (o : Options)

/-- At the end of the text there are no more items. -/
theorem repeatFrom_item_of_isDone {c : Cursor} (hdone : c.isDone) : repeatFrom (o.item.runWith call) c = .hit c [] := by
  have htop : Grammar.topLevelItem.runWith call c = .miss := by
    obtain ⟨past, rest⟩ := c
    obtain rfl : rest = [] := isDone_iff.mp hdone
    exact Canonical.miss_topLevelItem_nil past
  unfold item
  split
  · have hor : (Grammar.topLevelItem.or Grammar.statement).runWith call c = .hit c (.unparsed []) := by
      rw [runWith, htop]
      exact Grammar.hit_statement_of_isDone hdone
    exact repeatFrom_of_not_lt hor (lt_irrefl _)
  · exact repeatFrom_of_miss htop

theorem hit_item_newline (past : Text) : o.item.runWith call ⟨past, ['\n']⟩ = .hit ⟨'\n' :: past, []⟩ .ignore := by
  have htop : Grammar.topLevelItem.runWith call ⟨past, ['\n']⟩ = _ := Grammar.hit_topLevelItem_newline past
  unfold item
  split
  · rw [runWith, htop]
  · exact htop

include hgood hrules

theorem item_agrees : o.item.Agrees call Level Trailing (· = ·) := by
  have htop := Grammar.topLevelItem_agrees hgood hrules
  unfold item
  split
  · exact htop.or (Grammar.statement_agrees hgood.forward)
  · exact htop

/-- The items that have a meaning are the same with a newline after the text. -/
theorem items_agree (hmarker : o.stopMarker = none) :
    o.items.Agrees call Trailing Level fun vs vs' => vs'.filter (!·.isIgnore) = vs.filter (!·.isIgnore) := by
  unfold items
  rw [hmarker]
  refine manyLevel (o.item_agrees hgood hrules) (fun c d v hrun => ((o.item_ensures hgood c).hits d v hrun).1)
    (fun c hdone => o.repeatFrom_item_of_isDone hdone) (fun past => ⟨.ignore, o.hit_item_newline past, rfl⟩) rfl ?_
  rintro v _ vs vs' rfl hvs
  rw [List.filter_cons, List.filter_cons, hvs]

end Options

/-! ## Documents -/

/-- The items of a settled text are those of the text with a newline after it. -/
theorem run_items_newline {o : Options} {t : Text} (ht : Settled t) (hmarker : o.stopMarker = none) (depth : Nat) :
    (o.items.run depth (.start t)).InStep Level (fun vs vs' => vs'.filter (!·.isIgnore) = vs.filter (!·.isIgnore))
      (o.items.run depth (.start (t ++ ['\n']))) :=
  o.items_agree (Rule.good depth) (Rule.agree depth) hmarker _ _ (Or.inl (.start ht))

/-- A final newline does not matter, after a text that does not end where a body is still to come. Without a stop marker
and without a need to reach the end, with or without recovery: where the parse of the text returns, and the parse of the
text with a newline after it does, one fails just if the other does; where they do not, the nodes are the same, and one
document is complete just if the other is. -/
theorem final_newline_does_not_matter {t : Text} (ht : Settled t) (recover : Bool) {m n : Nat}
    (hm : parseWithin m { recover := recover } t ≠ .error .tooDeep)
    (hn : parseWithin n { recover := recover } (t ++ ['\n']) ≠ .error .tooDeep) :
    ((∃ why', parseWithin n { recover := recover } (t ++ ['\n']) = .error why') ↔
        ∃ why, parseWithin m { recover := recover } t = .error why) ∧
      ∀ d d', parseWithin m { recover := recover } t = .ok d →
        parseWithin n { recover := recover } (t ++ ['\n']) = .ok d' →
        d'.nodes = d.nodes ∧ (d'.isComplete ↔ d.isComplete) := by
  have hboth := run_items_newline (o := { recover := recover }) ht rfl m
  have hnewline : parseWithin m { recover := recover } (t ++ ['\n']) ≠ .error .tooDeep := by
    intro hdeep
    obtain ⟨why, hwhy, halike⟩ := parseWithin_eq_error_left rfl hboth hdeep
    cases halike
    exact hm hwhy
  rw [parseWithin_eq_of_ne_tooDeep hn hnewline]
  refine ⟨⟨?_, ?_⟩, fun d d' h h' => ?_⟩
  · rintro ⟨why', hwhy'⟩
    obtain ⟨why, hwhy, -⟩ := parseWithin_eq_error_left rfl hboth hwhy'
    exact ⟨why, hwhy⟩
  · rintro ⟨why, hwhy⟩
    obtain ⟨why', hwhy', -⟩ := parseWithin_eq_error_right rfl hboth hwhy
    exact ⟨why', hwhy'⟩
  · obtain ⟨found, found', hd, hd', hstop, hsame⟩ := exists_items_of_parseWithin rfl hboth h h'
    have hdone : d'.isComplete = d.isComplete := hstop.2.symm
    have hnodes : d'.nodes = d.nodes := by
      rw [hd, hd']
      exact hsame
    exact ⟨hnodes, by rw [hdone]⟩

/-- A text that ends in the body of a `let` is settled, and both parses reach the end. -/
theorem final_newline_does_not_matter_let :
    Settled "f =\n  let\n    x =\n      1\n  in x".toList ∧
    ∃ d d', parseWith { recover := true } "f =\n  let\n    x =\n      1\n  in x".toList = .ok d ∧
      parseWith { recover := true } ("f =\n  let\n    x =\n      1\n  in x".toList ++ ['\n']) = .ok d' ∧
      d.nodes = [.binding ⟨⟨"f".toList, []⟩,
        .letIn [⟨⟨"x".toList, []⟩, .call ["1".toList]⟩] (.call ["x".toList])⟩] ∧
      d'.nodes = d.nodes ∧ (d'.isComplete ↔ d.isComplete) := by
  have ht : Settled "f =\n  let\n    x =\n      1\n  in x".toList := by decide +kernel
  have hd : parseWith { recover := true } "f =\n  let\n    x =\n      1\n  in x".toList =
      .ok ⟨[.binding ⟨⟨"f".toList, []⟩, .letIn [⟨⟨"x".toList, []⟩, .call ["1".toList]⟩] (.call ["x".toList])⟩],
        ⟨"f =\n  let\n    x =\n      1\n  in x".toList.reverse, []⟩⟩ := by decide +kernel
  have hd' : parseWith { recover := true } ("f =\n  let\n    x =\n      1\n  in x".toList ++ ['\n']) =
      .ok ⟨[.binding ⟨⟨"f".toList, []⟩, .letIn [⟨⟨"x".toList, []⟩, .call ["1".toList]⟩] (.call ["x".toList])⟩],
        ⟨"f =\n  let\n    x =\n      1\n  in x\n".toList.reverse, []⟩⟩ := by decide +kernel
  have hm : parseWith { recover := true } "f =\n  let\n    x =\n      1\n  in x".toList ≠ .error .tooDeep := by
    rw [hd]
    simp
  have hn : parseWith { recover := true } ("f =\n  let\n    x =\n      1\n  in x".toList ++ ['\n']) ≠ .error .tooDeep := by
    rw [hd']
    simp
  exact ⟨ht, _, _, hd, hd', rfl, (final_newline_does_not_matter ht true hm hn).2 _ _ hd hd'⟩

/-- A head that ends the text is read as its own body; with a newline after it the body is empty. -/
example : ¬Settled "f =".toList ∧
    (parse "f =".toList).map Document.nodes = .ok [.binding ⟨⟨"f".toList, []⟩, .unparsed "f =".toList⟩] ∧
    (parse "f =\n".toList).map Document.nodes = .ok [.binding ⟨⟨"f".toList, []⟩, .unparsed []⟩] := by
  decide +kernel

end Offside
