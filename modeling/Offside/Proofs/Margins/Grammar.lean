import Offside.Proofs.Grammar.Items
import Offside.Proofs.Margins.Parsers

/-!
# Only relative indentation matters

Every rule that an expression is made of is aligned if the rules nested in it are, so at any depth all of them are. What may
begin in front of a line skips blanks first, so it makes no difference that its run on the full text begins in the margin.
So an expression comes to the same wherever its lines are moved together, `only_relative_indentation_matters`.
-/

namespace Offside

open Cursor

/-- The rules that an expression asks for come to the same with a margin. -/
structure RulesAligned (call : Rule → Cursor → Outcome Node) (rules : Rule → Bool → Cursor → Bool) (k : Nat) : Prop where
  /-- An expression may begin in front of a line. -/
  expr : (Parser.ofRule "Expr" .expr).Aligned call rules k Inset.Around Inset.At Node.SameInk
  /-- A condition begins with a word. -/
  ifThenElse : (Parser.ofRule "If" .ifThenElse).Aligned call rules k Inset.At Inset.At Node.SameInk

namespace Grammar

open Offside.Parser Offside.Parser.Aligned Inset

variable {call : Rule → Cursor → Outcome Node} {rules : Rule → Bool → Cursor → Bool} {k : Nat}

/-! ## Noise -/

theorem comment_aligned : comment.Aligned call rules k At At (· = ·) := by
  have hline : lineComment.Aligned call rules k At At (· = ·) := .named <| .andThen (.keyword (by decide)) .line
  have hdoc : docComment.Aligned call rules k At At (· = ·) :=
    .named <| .andThen (.keyword (by decide)) (.scan (by decide))
  have hblock : blockComment.Aligned call rules k At At (· = ·) :=
    .named <| .andThen (.keyword (by decide)) <| .andThen (.scan (by decide)) (.keyword (by decide))
  exact .oneOf <| .firstOf_cons hdoc <| .firstOf_cons hblock <| .firstOf_cons hline .firstOf_nil

theorem signatureExtent_aligned : signatureExtent.Aligned call rules k At At (· = ·) :=
  .named <| .onlyIf (.andThen (.scan (by decide)) <| .andThen .token <| .andThen .spaceOptional <|
    .andThen (.keyword (by decide)) <| .andThen .spaceRequired .line) (.extent .block)

theorem noise_aligned : noise.Aligned call rules k At At (· = ·) :=
  .oneOf <| .firstOf_cons .spaceRequired <| .firstOf_cons comment_aligned <|
    .firstOf_cons (.keywordBlock (by decide)) <| .firstOf_cons (.keywordBlock (by decide)) <|
      .firstOf_cons signatureExtent_aligned .firstOf_nil

theorem skipNoise_aligned_at (hcall : Forward call) : skipNoise.Aligned call rules k At At (· = ·) := by
  have hmany : (many noise).Aligned call rules k At At fun _ _ => True :=
    .many noise_aligned (fun c d v hrun => (noise_ensures hcall c).hits d v hrun) fun _ _ _ => trivial
  exact .named (.map hmany fun _ _ _ => rfl)

/-- Blanks in front of noise are noise. -/
theorem spansCuts_skipNoise_skipBlanks {cut : Bool} {c : Cursor} (h : skipNoise.spansCuts call rules cut c) :
    skipNoise.spansCuts call rules cut (c.skipWhile isBlank) := by
  by_cases hnext : c.next?.all (!isBlank ·)
  · rwa [skipWhile_eq_self hnext]
  · have hblank : c.next?.any isBlank := by
      cases hn : c.next? <;> simp_all
    have hstep : noise.runWith call c = .hit (c.skipWhile isBlank) () := firstOf_of_hit (hit_spaceRequired hblank)
    exact allSteps_hit h hstep (lt_skipWhile hblank)

/-- Noise may begin in front of a line: the blanks there are skipped first. -/
theorem skipNoise_aligned (hcall : Forward call) : skipNoise.Aligned call rules k Around At (· = ·) := by
  intro cut m c c' hm h hspan
  have hskip (d : Cursor) : skipNoise.runWith call d = skipNoise.runWith call (d.skipWhile isBlank) := by
    rw [skipNoise_eq_hit, skipNoise_eq_hit, noiseStop_skipWhile]
  rw [hskip c, hskip c']
  exact skipNoise_aligned_at hcall cut m _ _ hm (h.skipBlanks hm.toFronted) (spansCuts_skipNoise_skipBlanks hspan)

/-! ## Heads and simple expressions -/

section Leaves

variable (hcall : Forward call)

include hcall

theorem grab_argument_aligned : (grab (oneOf [token, parenGroup])).Aligned call rules k At At Node.SameInk :=
  .grab hcall <| .oneOf <| .firstOf_cons .token <| .firstOf_cons .parenGroup .firstOf_nil

theorem head_aligned : head.Aligned call rules k At At Node.SameInk := by
  have hparam : (sequence [grab (oneOf [token, parenGroup]), skip spaceOptional]).Aligned call rules k At At
      Node.SameInk :=
    .sequence <| .gather_cons (grab_argument_aligned hcall) <| .gather_cons (.skip .spaceOptional) .gather_nil
  have hparams := Aligned.zeroOrMore hparam fun c d v hrun => ((param_ensures hcall c).hits d v hrun).1
  have hwhole : (sequence [grab token, skip spaceOptional, zeroOrMore (sequence [grab (oneOf [token, parenGroup]),
      skip spaceOptional])]).Aligned call rules k At At Node.SameInk :=
    .sequence <| .gather_cons (.grab hcall .token) <| .gather_cons (.skip .spaceOptional) <|
      .gather_cons hparams .gather_nil
  exact .named <| .sequence <| .gather_cons (.assemble (.twoPass hcall (.scan (by decide)) hwhole)) <|
    .gather_cons (.skip (.keyword (by decide))) <| .gather_cons (.skip .line) <|
    .gather_cons (.skip .spaceOptional) .gather_nil

theorem upToLineEnding_aligned {word : String} (hword : Text.Visible word.toList) :
    (upToLineEnding word (grab untilEnd)).Aligned call rules k At At Node.SameInk := by
  have hscan : (Parser.scan (.untilLineEndsWith word.toList)).Aligned call rules k At At (· = ·) := by
    refine .scan fun w hw => ?_
    obtain rfl : w = word.toList := by simpa [Scanner.words] using hw
    exact hword
  exact .sequence <| .gather_cons (.twoPass hcall hscan (.grab hcall .untilEnd)) <|
    .gather_cons (.skip (.keyword hword)) <| .gather_cons (.skip .line) .gather_nil

theorem caseHead_aligned : caseHead.Aligned call rules k At At Node.SameInk :=
  .named <| .assemble <| .sequence <| .gather_cons (.skip (.keyword (by decide))) <|
    .gather_cons (upToLineEnding_aligned hcall (by decide)) .gather_nil

theorem pattern_aligned : pattern.Aligned call rules k At At Node.SameInk :=
  .named <| .assemble <| upToLineEnding_aligned hcall (by decide)

theorem tuple_aligned : tuple.Aligned call rules k At At Node.SameInk :=
  .named <| .assemble <| .sequence <| .gather_cons (.skip (.keyword (by decide))) <|
    .gather_cons (.grab hcall (.scan (by decide))) <| .gather_cons (.skip (.keyword (by decide))) <|
    .gather_cons (.skip .spaceOptional) <| .gather_cons (.skip (.scan (by decide))) .gather_nil

theorem call_aligned : Grammar.call.Aligned call rules k At At Node.SameInk := by
  have hargument : (sequence [skip spaceOptional, grab (oneOf [token, parenGroup])]).Aligned call rules k At At
      Node.SameInk :=
    .sequence <| .gather_cons (.skip .spaceOptional) <| .gather_cons (grab_argument_aligned hcall) .gather_nil
  have harguments := Aligned.oneOrMore hargument fun c d v hrun => ((argument_ensures hcall c).hits d v hrun).1
  exact .named <| .assemble <| .sequence <| .gather_cons harguments <| .gather_cons (.skip .spaceOptional) <|
    .gather_cons (.skip (.scan (by decide))) .gather_nil

theorem unparsed_aligned : unparsed.Aligned call rules k At At Node.SameInk :=
  .named <| .assemble <| .grab hcall .untilEnd

end Leaves

/-! ## Expressions -/

section Expressions

variable (hgood : Good call) (hrules : RulesAligned call rules k)

include hgood hrules

theorem binding_aligned : binding.Aligned call rules k At At Node.SameInk :=
  .named <| .assemble <| .sequence <| .gather_cons (head_aligned hgood.forward) <| .gather_cons (.skip .spaceOptional) <|
    .gather_cons (.indented hrules.expr) <| .gather_cons (.skip .spaceOptional) .gather_nil

theorem letIn_aligned : letIn.Aligned call rules k At At Node.SameInk := by
  have hcall := hgood.forward
  have hbinding : (sequence [skip skipNoise, binding]).Aligned call rules k Around Around Node.SameInk :=
    .after <| .sequence <| .gather_cons (.skip (skipNoise_aligned hcall)) <|
      .gather_cons (binding_aligned hgood hrules) .gather_nil
  have hbindings := Aligned.oneOrMore hbinding fun c d v hrun => ((noise_binding_ensures hgood c).hits d v hrun).1
  exact .named <| .assemble <| .sequence <| .gather_cons (.subBlock hcall (by decide) (.expect hbindings)) <|
    .gather_cons (.subBlock hcall (by decide) hrules.expr) .gather_nil

theorem ifThenElse_aligned : ifThenElse.Aligned call rules k At At Node.SameInk := by
  have hcall := hgood.forward
  have hexpr := hrules.expr.before
  have helseIf : (sequence [skip spaceOptional, skip (keyword "else"), skip spaceRequired,
      ofRule "If" .ifThenElse]).Aligned call rules k At At Node.SameInk :=
    .sequence <| .gather_cons (.skip .spaceOptional) <| .gather_cons (.skip (.keyword (by decide))) <|
      .gather_cons (.skip .spaceRequired) <| .gather_cons hrules.ifThenElse .gather_nil
  refine .named <| .assemble <| .sequence <| .gather_cons (.skip (.keyword (by decide))) <|
    .gather_cons (.skip .spaceRequired) <| .gather_cons (.twoPass hcall (.scan (by decide)) hexpr) <|
    .gather_cons (.skip (.keyword (by decide))) <| .gather_cons (.twoPass hcall (.scan (by decide)) hexpr) <|
    .gather_cons ?_ .gather_nil
  exact .oneOf <| .firstOf_cons helseIf <| .firstOf_cons (.subBlock hcall (by decide) hrules.expr) .firstOf_nil

theorem arm_aligned : arm.Aligned call rules k Around At Node.SameInk :=
  .named <| .assemble <| .sequence <| .gather_cons (.skip (skipNoise_aligned hgood.forward)) <|
    .gather_cons (pattern_aligned hgood.forward) <| .gather_cons (.skip .spaceOptional) <|
    .gather_cons (.indented hrules.expr) .gather_nil

theorem caseOf_aligned : caseOf.Aligned call rules k At At Node.SameInk := by
  have harms := Aligned.oneOrMore (arm_aligned hgood hrules).after fun c d v hrun =>
    ((arm_ensures hgood c).hits d v hrun).1
  exact .named <| .assemble <| .sequence <| .gather_cons (caseHead_aligned hgood.forward) <|
    .gather_cons (.skip .spaceOptional) <| .gather_cons (.indented harms) .gather_nil

theorem expr_aligned : expr.Aligned call rules k Around At Node.SameInk := by
  have hcall := hgood.forward
  refine .named <| .sequence <| .gather_cons (.skip (skipNoise_aligned hcall)) <| .gather_cons (.oneOf ?_) .gather_nil
  exact .firstOf_cons (letIn_aligned hgood hrules) <| .firstOf_cons (ifThenElse_aligned hgood hrules) <|
    .firstOf_cons (caseOf_aligned hgood hrules) <| .firstOf_cons (tuple_aligned hcall) <|
    .firstOf_cons (call_aligned hcall) <| .firstOf_cons (unparsed_aligned hcall) .firstOf_nil

end Expressions

end Grammar

/-- At any depth, the rules that an expression asks for come to the same with a margin. -/
theorem Rule.aligned (k depth : Nat) : RulesAligned (Rule.run depth) (Rule.spansCuts depth) k := by
  induction depth with
  | zero => exact ⟨fun _ _ _ _ _ _ _ => .halt .tooDeep, fun _ _ _ _ _ _ _ => .halt .tooDeep⟩
  | succ depth ih =>
    have hexpr : Rule.expr.body.Aligned (Rule.run depth) (Rule.spansCuts depth) k Inset.Around Inset.At Node.SameInk :=
      Grammar.expr_aligned (Rule.good depth) ih
    have hif : Rule.ifThenElse.body.Aligned (Rule.run depth) (Rule.spansCuts depth) k Inset.At Inset.At Node.SameInk :=
      Grammar.ifThenElse_aligned (Rule.good depth) ih
    exact ⟨.ofRule hexpr, .ofRule hif⟩

/-! ## Relative indentation -/

/-- An expression comes to the same, at any depth, if as many spaces are inserted in front of each of its lines. -/
theorem Grammar.run_expr_shifted (t : Text) (k depth : Nat)
    (hspan : expr.spansCuts (Rule.run depth) (Rule.spansCuts depth) false (.start t)) :
    (expr.run depth (.start t)).InStep (fun _ _ => True) Node.SameInk (expr.run depth (.start (t.shifted k))) := by
  obtain ⟨m, rfl, hfull, hm⟩ := Inset.exists_even k t
  rw [← hfull]
  have hboth := expr_aligned (Rule.good depth) (Rule.aligned k depth) false m _ _ hm (Inset.around_start m) hspan
  exact hboth.imp_stop fun _ _ _ _ _ _ _ => trivial

/-- Only relative indentation matters, as long as each extent that the run asks for on the first line of a text that was cut
out in the middle of a line reaches the end of that text. If as many spaces are inserted in front of every line that has
something visible, and the runs on both texts return, then both match and the nodes are the same once all blanks are taken
out of the texts in them, or both halt, with the same kind of fault. -/
theorem only_relative_indentation_matters (t : Text) (k : Nat) {m n : Nat}
    (hspan : Grammar.expr.spansCuts (Rule.run m) (Rule.spansCuts m) false (.start t))
    (hm : Grammar.expr.run m (.start t) ≠ .halt .tooDeep) (hn : Grammar.expr.run n (.start (t.shifted k)) ≠ .halt .tooDeep) :
    (∃ d v d' v', Grammar.expr.run m (.start t) = .hit d v ∧ Grammar.expr.run n (.start (t.shifted k)) = .hit d' v' ∧
      v'.squeezed = v.squeezed) ∨
    ∃ fault fault', Grammar.expr.run m (.start t) = .halt (.fault fault) ∧
      Grammar.expr.run n (.start (t.shifted k)) = .halt (.fault fault') ∧ fault'.kind = fault.kind := by
  have hboth := Grammar.run_expr_shifted t k m hspan
  have hensures := Grammar.expr_ensures (Rule.good m) (.start t)
  generalize hrun : Grammar.expr.run m (.start t) = o, hrun' : Grammar.expr.run m (.start (t.shifted k)) = o' at hboth
  have hother (hne : o' ≠ .halt .tooDeep) : Grammar.expr.run n (.start (t.shifted k)) = o' :=
    (Grammar.expr.run_eq_run (hrun' ▸ hne) hn).trans hrun'
  cases hboth with
  | hit _ hv => exact Or.inl ⟨_, _, _, _, rfl, hother (by simp), hv.symm⟩
  | miss => exact (hensures.misses hrun).elim
  | halt halike =>
    obtain rfl | ⟨fault, rfl, -⟩ := hensures.halts _ hrun
    · exact absurd hrun hm
    · cases halike with
      | fault hkind => exact Or.inr ⟨_, _, rfl, hother (by simp), hkind.symm⟩

/-- The body of a `let` is cut out in the middle of its line, and in it a tuple that goes on with another line. -/
theorem only_relative_indentation_matters_tuple :
    Grammar.expr.spansCuts (Rule.run 3) (Rule.spansCuts 3) false
      (.start "let x =\n  y\nin if a then b else (c\n  d)".toList) ∧
    ∃ d v d' v', Grammar.expr.run 3 (.start "let x =\n  y\nin if a then b else (c\n  d)".toList) = .hit d v ∧
      Grammar.expr.run 3 (.start (Text.shifted 2 "let x =\n  y\nin if a then b else (c\n  d)".toList)) = .hit d' v' ∧
      v = .letIn [⟨⟨"x".toList, []⟩, .call ["y".toList]⟩]
        (.ifThenElse (.call ["a".toList]) (.call ["b".toList]) (.tuple "c\n  d".toList)) ∧
      v' = .letIn [⟨⟨"x".toList, []⟩, .call ["y".toList]⟩]
        (.ifThenElse (.call ["a".toList]) (.call ["b".toList]) (.tuple "c\n    d".toList)) ∧
      v'.squeezed = v.squeezed := by
  obtain ⟨hspan, hrun, hrun'⟩ :
      Grammar.expr.spansCuts (Rule.run 3) (Rule.spansCuts 3) false
        (.start "let x =\n  y\nin if a then b else (c\n  d)".toList) = true ∧
      Grammar.expr.run 3 (.start "let x =\n  y\nin if a then b else (c\n  d)".toList) =
        .hit ⟨"let x =\n  y\nin if a then b else (c\n  d)".toList.reverse, []⟩
          (.letIn [⟨⟨"x".toList, []⟩, .call ["y".toList]⟩]
            (.ifThenElse (.call ["a".toList]) (.call ["b".toList]) (.tuple "c\n  d".toList))) ∧
      Grammar.expr.run 3 (.start (Text.shifted 2 "let x =\n  y\nin if a then b else (c\n  d)".toList)) =
        .hit ⟨"  let x =\n    y\n  in if a then b else (c\n    d)".toList.reverse, []⟩
          (.letIn [⟨⟨"x".toList, []⟩, .call ["y".toList]⟩]
            (.ifThenElse (.call ["a".toList]) (.call ["b".toList]) (.tuple "c\n    d".toList))) := by decide +kernel
  have hm : Grammar.expr.run 3 (.start "let x =\n  y\nin if a then b else (c\n  d)".toList) ≠ .halt .tooDeep := by
    intro h
    cases hrun.symm.trans h
  have hn : Grammar.expr.run 3 (.start (Text.shifted 2 "let x =\n  y\nin if a then b else (c\n  d)".toList)) ≠
      .halt .tooDeep := by
    intro h
    cases hrun'.symm.trans h
  refine ⟨hspan, _, _, _, _, hrun, hrun', rfl, rfl, ?_⟩
  obtain ⟨d, v, d', v', h, h', hsame⟩ | ⟨fault, _, h, -⟩ := only_relative_indentation_matters _ 2 hspan hm hn
  · obtain ⟨rfl, rfl⟩ := Outcome.hit.inj (hrun.symm.trans h)
    obtain ⟨rfl, rfl⟩ := Outcome.hit.inj (hrun'.symm.trans h')
    exact hsame
  · cases hrun.symm.trans h

end Offside
