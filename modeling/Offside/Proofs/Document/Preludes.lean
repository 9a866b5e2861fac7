import Offside.Proofs.Document.Restarting
import Offside.Proofs.Grammar.Fillers

/-!
# Fillers before code

Blanks and comments before code are invisible: an expression is what it is without them, and so are the nodes of a document.
An expression passes them as noise; to a document they are items without a meaning, and those are left out.
-/

namespace Offside

open Offside.Parser Cursor

/-! ## Expressions -/

/-- An expression begins where the noise ends, so fillers before it make no difference but to what comes before. -/
theorem run_expr_fillers (fillers : List Filler) (t : Text) (depth : Nat) :
    Grammar.expr.run depth (.start (Filler.textOf fillers ++ t)) =
      Grammar.expr.run depth ((Cursor.start t).after (Filler.textOf fillers)) := by
  have hstop := Filler.blind_noiseStop.fillers fillers [] t
  rw [List.append_nil] at hstop
  exact Grammar.runWith_of_noiseStop hstop

/-! ## Documents -/

namespace Options

variable {o : Options} {depth : Nat} {c d : Cursor}

/-- The nodes that the items from a place on make. -/
def nodesFrom (o : Options) (depth : Nat) (c : Cursor) : Outcome (List Node) :=
  (o.items.run depth c).bind fun stop found => .hit stop (found.filter (!·.isIgnore))

variable (hmarker : o.stopMarker = none)

include hmarker

/-- An item without a meaning that gets ahead adds nothing. -/
theorem nodesFrom_of_ignore (h : o.item.run depth c = .hit d .ignore) (hlt : c < d) :
    o.nodesFrom depth c = o.nodesFrom depth d := by
  rw [nodesFrom, nodesFrom, run_items_eq hmarker, run_items_eq hmarker, repeatFrom_of_lt h (lt_iff.mp hlt).2]
  cases repeatFrom (o.item.run depth) d <;> rfl

omit hmarker in
/-- Blanks and comments are items without a meaning. -/
theorem run_item_of_hit (h : (oneOf [spaceRequired, Grammar.comment]).run depth c = .hit d ()) :
    o.item.run depth c = .hit d .ignore := by
  have hitem : Grammar.topLevelItem.run depth c = .hit d .ignore := firstOf_of_hit (hit_skip h)
  unfold item
  split
  · simp only [run, runWith] at hitem ⊢
    rw [hitem]
  · exact hitem

/-- The nodes from a place on do not change when blanks or comments are passed. -/
theorem blind_nodesFrom (depth : Nat) : Filler.Blind (o.nodesFrom depth) where
  blanks c := by
    by_cases hnext : c.next?.any isBlank
    · have hspace : spaceRequired.run depth c = .hit (c.skipWhile isBlank) () := hit_spaceRequired hnext
      have hitem : o.item.run depth c = .hit (c.skipWhile isBlank) .ignore := run_item_of_hit (firstOf_of_hit hspace)
      have hlt : c < c.skipWhile isBlank := lt_skipWhile hnext
      exact (nodesFrom_of_ignore hmarker hitem hlt).symm
    · have hnone : c.next?.all (!isBlank ·) := by
        cases hn : c.next? <;> simp_all
      rw [skipWhile_eq_self hnone]
  comment c d hnext hcomment := by
    have hlt := (Grammar.comment_ensures (Rule.forward 0) c).hits d () hcomment
    have hblank : spaceRequired.run depth c = .miss := miss_spaceRequired hnext
    rw [← Grammar.comment_eq_run_zero (Rule.run depth)] at hcomment
    exact nodesFrom_of_ignore hmarker (run_item_of_hit ((firstOf_of_miss hblank).trans (firstOf_of_hit hcomment))) hlt

omit hmarker

theorem nodesFrom_eq_halt_iff {why : Halt} :
    o.nodesFrom depth c = .halt why ↔ o.items.run depth c = .halt why := by
  unfold nodesFrom
  cases o.items.run depth c <;> simp [Outcome.bind]

/-- After whole lines, the nodes are the same, and end at the same place after those lines. -/
theorem nodesFrom_inStep_after {before : Text} (hlines : WholeLines before) {m n : Nat}
    (hm : o.nodesFrom m c ≠ .halt .tooDeep) (hn : o.nodesFrom n (c.after before) ≠ .halt .tooDeep) :
    (o.nodesFrom m c).InStep (IsAfter before) (· = ·) (o.nodesFrom n (c.after before)) := by
  rw [Ne, nodesFrom_eq_halt_iff] at hm hn
  refine (o.items.run_inStep_after hlines c hm hn).bind fun stop stop' found found' _ _ hstop hfound => ?_
  exact .hit hstop (congrArg (List.filter (!·.isIgnore)) hfound)

variable {t : Text} (hcomplete : o.requireComplete = false)

include hcomplete

/-- A document that need not be complete is the nodes from the start of its text on. -/
theorem parseWithin_eq_ok_iff_nodesFrom {d : Document} :
    parseWithin depth o t = .ok d ↔ o.nodesFrom depth (.start t) = .hit d.stop d.nodes := by
  rw [parseWithin_eq_ok_iff hcomplete, nodesFrom, Outcome.bind_eq_hit]
  constructor
  · rintro ⟨found, hrun, hd⟩
    exact ⟨d.stop, found, hrun, by rw [hd]; rfl⟩
  · rintro ⟨stop, found, hrun, hd⟩
    obtain ⟨rfl, hnodes⟩ : stop = d.stop ∧ found.filter (!·.isIgnore) = d.nodes := by simpa using hd
    refine ⟨found, hrun, ?_⟩
    rw [Document.ofItems, hnodes]

theorem parseWithin_eq_error_iff_nodesFrom {why : Halt} :
    parseWithin depth o t = .error why ↔ o.nodesFrom depth (.start t) = .halt why :=
  (parseWithin_eq_error_iff hcomplete).trans nodesFrom_eq_halt_iff.symm

/-- What is parsed after blanks and comments in whole lines is what is parsed without them. -/
theorem parseWithin_fillers {fillers : List Filler} (hlines : WholeLines (Filler.textOf fillers)) {m n : Nat}
    (hmarker : o.stopMarker = none) (hm : parseWithin m o t ≠ .error .tooDeep)
    (hn : parseWithin n o (Filler.textOf fillers ++ t) ≠ .error .tooDeep) :
    (∀ d', parseWithin n o (Filler.textOf fillers ++ t) = .ok d' ↔
      ∃ d, parseWithin m o t = .ok d ∧ d' = ⟨d.nodes, d.stop.after (Filler.textOf fillers)⟩) ∧
    (∀ why', parseWithin n o (Filler.textOf fillers ++ t) = .error why' →
      ∃ why, parseWithin m o t = .error why ∧ why.Alike why') ∧
    ∀ why, parseWithin m o t = .error why →
      ∃ why', parseWithin n o (Filler.textOf fillers ++ t) = .error why' ∧ why.Alike why' := by
  have hpassed : o.nodesFrom n (.start (Filler.textOf fillers ++ t)) =
      o.nodesFrom n ((Cursor.start t).after (Filler.textOf fillers)) := by
    have h := (o.blind_nodesFrom hmarker n).fillers fillers [] t
    rwa [List.append_nil] at h
  simp only [Ne, parseWithin_eq_error_iff_nodesFrom hcomplete, parseWithin_eq_ok_iff_nodesFrom hcomplete,
    hpassed] at hm hn ⊢
  have hboth := nodesFrom_inStep_after hlines hm hn
  generalize o.nodesFrom m (.start t) = run, o.nodesFrom n ((Cursor.start t).after (Filler.textOf fillers)) = run' at hboth
  cases hboth with
  | hit stop related =>
    subst stop related
    refine ⟨fun ⟨nodes, stop'⟩ => ⟨fun h => ?_, ?_⟩, by simp, by simp⟩
    · obtain ⟨rfl, rfl⟩ := Outcome.hit.inj h
      exact ⟨⟨_, _⟩, rfl, rfl⟩
    · rintro ⟨d, h, hd⟩
      obtain ⟨rfl, rfl⟩ := Document.mk.inj hd
      obtain ⟨rfl, rfl⟩ := Outcome.hit.inj h
      rfl
  | miss => simp
  | halt alike =>
    refine ⟨by simp, ?_, ?_⟩
    · rintro _ ⟨⟩
      exact ⟨_, rfl, alike⟩
    · rintro _ ⟨⟩
      exact ⟨_, rfl, alike⟩

end Options

/-- Blanks and comments in whole lines before a text are invisible. An expression at its start is the same and ends as much
further on, or both halt for one kind of reason; a document has the same nodes and ends as much further on, with recovery or
without, or both fail for one kind of reason, whenever both runs return. And where the noise ends there is no more of it. -/
theorem fillers_are_invisible {fillers : List Filler} (hlines : WholeLines (Filler.textOf fillers)) (t : Text) :
    (∀ stop : Cursor, (stop.after (Filler.textOf fillers)).text = Filler.textOf fillers ++ stop.text ∧
      (stop.after (Filler.textOf fillers)).offset = (Filler.textOf fillers).utf8Size + stop.offset) ∧
    (∀ m n, Grammar.expr.run m (.start t) ≠ .halt .tooDeep →
      Grammar.expr.run n (.start (Filler.textOf fillers ++ t)) ≠ .halt .tooDeep →
      (Grammar.expr.run m (.start t)).InStep (fun stop stop' => stop' = stop.after (Filler.textOf fillers)) (· = ·)
        (Grammar.expr.run n (.start (Filler.textOf fillers ++ t)))) ∧
    (∀ recover m n, parseWithin m { recover := recover } t ≠ .error .tooDeep →
      parseWithin n { recover := recover } (Filler.textOf fillers ++ t) ≠ .error .tooDeep →
      (∀ d', parseWithin n { recover := recover } (Filler.textOf fillers ++ t) = .ok d' ↔
        ∃ d, parseWithin m { recover := recover } t = .ok d ∧ d' = ⟨d.nodes, d.stop.after (Filler.textOf fillers)⟩) ∧
      (∀ why', parseWithin n { recover := recover } (Filler.textOf fillers ++ t) = .error why' →
        ∃ why, parseWithin m { recover := recover } t = .error why ∧ why.Alike why') ∧
      ∀ why, parseWithin m { recover := recover } t = .error why →
        ∃ why', parseWithin n { recover := recover } (Filler.textOf fillers ++ t) = .error why' ∧ why.Alike why') ∧
    ∀ m n c, ∃ stop, Grammar.skipNoise.run m c = .hit stop () ∧ Grammar.skipNoise.run n stop = .hit stop () := by
  refine ⟨fun stop => ⟨text_after stop _, offset_after stop _⟩, fun m n hm hn => ?_, fun recover m n hm hn => ?_, ?_⟩
  · rw [run_expr_fillers] at hn ⊢
    exact Grammar.expr.run_inStep_after hlines (.start t) hm hn
  · exact Options.parseWithin_fillers rfl hlines rfl hm hn
  · intro m n c
    have hstop := Grammar.skipNoise_eq_hit (Grammar.noiseStop c) (Rule.run n)
    rw [Grammar.noiseStop_noiseStop] at hstop
    exact ⟨_, Grammar.skipNoise_eq_hit c (Rule.run m), hstop⟩

/-- Blanks and comments of both kinds before a definition: it is read as on its own. -/
theorem fillers_are_invisible_comments :
    ∃ fillers : List Filler, Filler.textOf fillers = " \x7b- b -\x7d-- c\n".toList ∧
      WholeLines (Filler.textOf fillers) ∧
      parseWithin 1 {} (Filler.textOf fillers ++ "f =\n  x\n".toList) =
        .ok ⟨[.binding ⟨⟨"f".toList, []⟩, .call ["x".toList]⟩], ⟨" \x7b- b -\x7d-- c\nf =\n  x\n".toList.reverse, []⟩⟩ := by
  have hclosed : ¬"-\x7d".toList <:+: " b ".toList := by decide
  have hline : '\n' ∉ " c".toList := by decide
  have htext : Filler.textOf [.blanks " ".toList rfl, .blockComment " b ".toList hclosed, .lineComment " c".toList hline] =
      " \x7b- b -\x7d-- c\n".toList := rfl
  have hlines := htext ▸ (show WholeLines " \x7b- b -\x7d-- c\n".toList from Or.inr (by decide))
  have hparse : parseWithin 1 {} "f =\n  x\n".toList =
      .ok ⟨[.binding ⟨⟨"f".toList, []⟩, .call ["x".toList]⟩], ⟨"f =\n  x\n".toList.reverse, []⟩⟩ := by decide +kernel
  have hm : parseWithin 1 {} "f =\n  x\n".toList ≠ .error .tooDeep := by
    rw [hparse]
    nofun
  have hn : parseWithin 1 {} (" \x7b- b -\x7d-- c\n".toList ++ "f =\n  x\n".toList) ≠ .error .tooDeep := by decide +kernel
  refine ⟨_, htext, hlines, ?_⟩
  have hdocument := ((fillers_are_invisible hlines "f =\n  x\n".toList).2.2.1 false 1 1 hm (htext ▸ hn)).1
  exact (hdocument _).mpr ⟨_, hparse, rfl⟩

end Offside
