import Offside.Proofs.FinalNewline.Grammar

/-!
# Expressions of a settled text

Expressions are the same with a newline after the text, if the runs nested in them are. Where a body is looked for at the
end of the text, the line before is read as that body, and with the newline nothing is. In a settled text that line is
blank, which is as good an expression as nothing, or it holds neither a definition nor an arm.
-/

namespace Offside

open Cursor

/-- Where no blank comes next in the longer text, none does in the shorter one. -/
theorem Landed.next? {c c' : Cursor} (h : Landed c c') : c.next?.all (!isBlank ·) := by
  have hlevel := h.level.2
  rcases h.1 with ha | hb
  · rw [← ha.next? (hlevel.trans ha.isDone')]
    exact h.2
  · exact next?_of_isDone hb.isDone

namespace Grammar

open Offside.Parser Agrees

variable {call : Rule → Cursor → Outcome Node}

/-! ## Bodies -/

theorem clear_blanks : spaceOptional.Agrees call Clear Clear (· = ·) := by
  rintro c c' h
  rw [hit_spaceOptional_none h.1.next?, hit_spaceOptional_none h.1.2]
  exact .hit h rfl

/-- After a keyword that may end its line with its body still to come, both texts end or neither does. -/
theorem level_of_afterWord {word : String} (hword : word ∈ ["in", "else"]) {c c' : Cursor}
    (h : AfterWord word.toList c c') : Level c c' := by
  obtain ⟨ha, e, hm, rfl⟩ := h
  refine ⟨Or.inl ha, ?_⟩
  rcases Trailing.level_or (Or.inl ha) with hlevel | ⟨-, hdone⟩
  · exact hlevel.2
  · -- Nothing follows the keyword, so a newline would have to.
    have hnil : (e.advance word.toList.length).rest = [] := isDone_iff.mp hdone
    obtain ⟨rest, hrest, -⟩ := rest_of_matchesWord hm
    have hend : rest = [] := by simpa [advance, hrest] using hnil
    have hbare : Test.bareLine.holds (e.advance word.toList.length) := by
      simp [Test.holds, restOfLine, Text.firstLine, hnil, Text.trim, Text.trimEnd]
    have hmem := (text_advance e _ ▸ ha.settled).words word hword e rfl hm hbare
    rw [hrest, hend, List.append_nil] at hmem
    simp only [List.mem_cons, List.not_mem_nil, or_false] at hword
    rcases hword with rfl | rfl
    · exact absurd hmem (by decide)
    · exact absurd hmem (by decide)

section Bodies

variable (hrules : RulesAgree call)

include hrules

theorem indented_nestedExpr_agrees : (indented nestedExpr).Agrees call Clear Trailing (· = ·) := fun _ _ h =>
  indentedAt hrules.expr h.1 fun hb => hrules.blank _ (all_isBlank_toLineStart hb.isDone (h.2 hb.isDone))

theorem subBlock_nestedExpr_agrees (hcall : Forward call) {word : String} (hword : word ∈ ["in", "else"]) :
    (subBlock word nestedExpr).Agrees call Trailing Trailing (· = ·) := by
  have hplain : Text.Plain word.toList ∧ word.toList.getLast?.any isWordChar := by
    simp only [List.mem_cons, List.not_mem_nil, or_false] at hword
    rcases hword with rfl | rfl <;> decide
  refine Agrees.subBlock hcall hplain.1 hplain.2 hrules.expr fun e d d' hsettled hm hbare hd hb => ?_
  have hmem := hsettled.words word hword e rfl hm hbare
  obtain ⟨rest, hrest, -⟩ := rest_of_matchesWord hm
  have hafter : '\n' ∈ (e.advance word.toList.length).rest := by
    have hadvance : (e.advance word.toList.length).rest = rest := by simp [advance, hrest]
    rw [hrest, List.mem_append] at hmem
    rw [hadvance]
    exact hmem.resolve_left hplain.1.2
  have hstart : d.atLineStart := hd ▸ atLineStart_nextLine hafter
  exact hrules.blank _ (all_isBlank_toLineStart hb.isDone hstart)

end Bodies

/-! ## Definitions -/

section Expressions

variable (hgood : Good call) (hrules : RulesAgree call)

include hgood

/-- On a line that does not end in an equals sign, no definition begins. -/
theorem miss_noise_binding {t : Text} (hline : '\n' ∉ t) (hends : ¬EndsIn "=".toList t) :
    (sequence [skip skipNoise, binding]).runWith call (.start t) = .miss := by
  have htext : (noiseStop (.start t)).text = t := text_noiseStop _
  have hhead := head_ensures hgood.forward (noiseStop (.start t))
  have hmiss : head.runWith call (noiseStop (.start t)) = .miss := by
    cases hrun : head.runWith call (noiseStop (.start t)) with
    | hit d v =>
      obtain ⟨-, hd, -, hequals, -⟩ := hhead.hits d v hrun
      have hdone : d.isDone := hd ▸ nextLine_isDone_of_oneLine (by rwa [htext])
      exact absurd (htext ▸ hequals hdone) hends
    | miss => rfl
    | halt why => exact (hhead.halts why hrun).elim
  have hbinding : binding.runWith call (noiseStop (.start t)) = .miss := miss_assemble (miss_sequence (miss_seq hmiss))
  exact miss_sequence (miss_seq_of_hit (hit_skip (skipNoise_eq_hit _ call)) (miss_seq hbinding))

/-- On a line that does not end in an arrow, no arm begins. -/
theorem miss_arm {t : Text} (hline : '\n' ∉ t) (hends : ¬"->".toList <:+ t.trimEnd) :
    arm.runWith call (.start t) = .miss := by
  have htext : (noiseStop (.start t)).text = t := text_noiseStop _
  have hpattern := pattern_ensures hgood.forward (noiseStop (.start t))
  have hmiss : pattern.runWith call (noiseStop (.start t)) = .miss := by
    cases hrun : pattern.runWith call (noiseStop (.start t)) with
    | hit d v =>
      obtain ⟨-, -, -, harrow, -⟩ := hpattern.hits d v hrun
      exact absurd (htext ▸ harrow (nextLine_isDone_of_oneLine (by rwa [htext]))) hends
    | miss => rfl
    | halt why => exact (hpattern.halts why hrun).elim
  exact miss_assemble (miss_sequence (miss_seq_of_hit (hit_skip (skipNoise_eq_hit _ call)) (miss_seq hmiss)))

include hrules

theorem binding_agrees : binding.Agrees call Trailing Trailing (· = ·) :=
  named <| assemble <| sequence <| gather_cons (head_agrees hgood.forward) <| gather_cons (skip clear_blanks) <|
    gather_cons (indented_nestedExpr_agrees hrules) <| gather_cons (skip blanks) <| gather_nil fun _ _ h => h

theorem letIn_agrees : letIn.Agrees call Trailing Trailing (· = ·) := by
  have hcall := hgood.forward
  have hbinding : (Parser.sequence [Parser.skip skipNoise, binding]).Agrees call Trailing Trailing (· = ·) :=
    sequence <| gather_cons (skip (skipNoise_agrees hcall)) <| gather_cons (binding_agrees hgood hrules) <|
      gather_nil fun _ _ h => h
  have hbindings := oneOrMore hbinding fun c d v hrun => ((noise_binding_ensures hgood c).hits d v hrun).1
  refine named <| assemble <| sequence <| gather_cons ?_ <|
    gather_cons (subBlock_nestedExpr_agrees hrules hcall (by simp)) <| gather_nil fun _ _ h => h
  refine Agrees.subBlock hcall (by decide) (by decide) (expect hbindings).anywhere fun e d d' hsettled _ _ hd hb => ?_
  -- Neither the line before nor nothing has definitions.
  have hline := newline_not_mem_toLineStart hb.isDone
  have htext : d.text = e.text := by rw [hd, text_nextLine, text_advance]
  have hends := (settled_toLineStart (htext ▸ hsettled)).not_equals hline
  have hnil : ¬EndsIn "=".toList [] := by
    rintro ⟨before, hbefore, -⟩
    simp [Text.trimEnd] at hbefore
  refine .expect ?_
  rw [miss_oneOrMore (miss_noise_binding hgood hline hends),
    miss_oneOrMore (miss_noise_binding hgood List.not_mem_nil hnil)]
  exact .miss

/-! ## Conditions and cases -/

theorem ifThenElse_agrees : ifThenElse.Agrees call Trailing Anywhere (· = ·) := by
  have hcall := hgood.forward
  have helseIf : (Parser.sequence [Parser.skip spaceOptional, Parser.skip (Parser.keyword "else"),
      Parser.skip Parser.spaceRequired, ofRule "If" .ifThenElse]).Agrees call Trailing Anywhere (· = ·) := by
    have hblanks : Parser.spaceRequired.Agrees call (AfterWord "else".toList) Trailing (· = ·) :=
      Agrees.spaceRequired.before fun _ _ h => level_of_afterWord (by simp) h
    exact sequence <| gather_cons (skip blanks) <| gather_cons (skip (keyword_after (by decide))) <|
      gather_cons (skip hblanks) <| gather_cons (p := ofRule "If" .ifThenElse) hrules.ifThenElse <|
      gather_nil fun _ _ h => h
  refine named <| assemble <| sequence <| gather_cons (skip (Agrees.keyword (by decide))) <| gather_spaceRequired rfl ?_ ?_
  · refine gather_cons (Keeps.twoPass hcall (.scan (by decide) (by decide))).trailing <|
      gather_cons (skip (Agrees.keyword (by decide))) <|
      gather_cons (Keeps.twoPass hcall (.scan (by decide) (by decide))).trailing <| gather_cons ?_ <|
      gather_nil fun _ _ h => h
    exact oneOf <| firstOf_cons helseIf <|
      firstOf_cons (subBlock_nestedExpr_agrees hrules hcall (by simp)).anywhere firstOf_nil
  · intro d hdone
    have hrest : d.rest = [] := isDone_iff.mp hdone
    exact miss_seq (miss_twoPass (miss_scan (by simp [Scanner.reach?, hrest, firstPlace?])))

theorem arm_agrees : arm.Agrees call Trailing Trailing (· = ·) :=
  named <| assemble <| sequence <| gather_cons (skip (skipNoise_agrees hgood.forward)) <|
    gather_cons (pattern_agrees hgood.forward) <| gather_cons (skip afterArrow_blanks) <|
    gather_cons (indented_nestedExpr_agrees hrules) <| gather_nil fun _ _ h => h

theorem caseOf_agrees : caseOf.Agrees call Trailing Trailing (· = ·) := by
  have harms := oneOrMore (arm_agrees hgood hrules) fun c d v hrun => ((arm_ensures hgood c).hits d v hrun).1
  have hindented : (indented (Parser.oneOrMore arm)).Agrees call Landed Trailing (· = ·) := fun c c' h =>
    indentedAt harms.anywhere h fun hb => by
      have hline := newline_not_mem_toLineStart hb.isDone
      have hends := (settled_toLineStart hb.settled).not_arrow hline
      have hnil : ¬"->".toList <:+ Text.trimEnd [] := by decide
      rw [miss_oneOrMore (miss_arm hgood hline hends), miss_oneOrMore (miss_arm hgood List.not_mem_nil hnil)]
      exact .miss
  exact named <| assemble <| sequence <| gather_cons (caseHead_agrees hgood.forward) <|
    gather_cons (skip Agrees.spaceOptional) <| gather_cons hindented <| gather_nil fun _ _ h => h

theorem expr_agrees : expr.Agrees call Trailing Anywhere (· = ·) := by
  have hcall := hgood.forward
  refine named <| sequence <| gather_cons (skip (skipNoise_agrees hcall)) <| gather_cons (oneOf ?_) <|
    gather_nil fun _ _ h => h
  exact firstOf_cons (letIn_agrees hgood hrules).anywhere <| firstOf_cons (ifThenElse_agrees hgood hrules) <|
    firstOf_cons (caseOf_agrees hgood hrules).anywhere <| firstOf_cons (tuple_agrees hcall).anywhere <|
    firstOf_cons (call_agrees hcall).anywhere <| firstOf_cons (unparsed_agrees hcall).anywhere firstOf_nil

end Expressions

/-! ## Blank expressions -/

/-- Blanks are an expression of which nothing is left. -/
theorem expr_of_blank {t : Text} (hblank : t.all isBlank) : ∃ d, expr.runWith call (.start t) = .hit d (.unparsed []) := by
  obtain ⟨e, he⟩ : ∃ e, e = noiseStop (.start t) := ⟨_, rfl⟩
  obtain ⟨passed, hrest, -⟩ := he ▸ le_noiseStop (.start t)
  have hdone : e.rest = [] := by
    have hnext := he ▸ next?_noiseStop (.start t)
    cases hcons : e.rest with
    | nil => rfl
    | cons ch rest =>
      have hmem : ch ∈ t := by
        rw [show t = passed ++ e.rest from hrest, hcons]
        simp
      simp [next?, hcons, List.all_eq_true.mp hblank ch hmem] at hnext
  obtain ⟨past, rest⟩ := e
  obtain rfl : rest = [] := hdone
  have hword : ∀ word : String, (Parser.keyword word).runWith call ⟨past, []⟩ = .miss := fun word =>
    miss_keyword (matchesWord_nil past _)
  have hlet : letIn.runWith call ⟨past, []⟩ = .miss :=
    miss_assemble (miss_sequence (miss_seq (miss_seq (miss_seq_of_hit hit_spaceOptional (hword "let")))))
  have hif : ifThenElse.runWith call ⟨past, []⟩ = .miss :=
    miss_assemble (miss_sequence (miss_seq (miss_skip (hword "if"))))
  have hcase : caseOf.runWith call ⟨past, []⟩ = .miss :=
    miss_assemble (miss_sequence (miss_seq (miss_assemble (miss_sequence (miss_seq (miss_skip (hword "case")))))))
  have htuple : tuple.runWith call ⟨past, []⟩ = .miss :=
    miss_assemble (miss_sequence (miss_seq (miss_skip (hword "("))))
  have hargument : (Parser.oneOf [token, parenGroup]).runWith call ⟨past, []⟩ = .miss := by
    refine miss_firstOf_iff.mpr fun p hp => ?_
    simp only [List.mem_cons, List.not_mem_nil, or_false] at hp
    rcases hp with rfl | rfl
    · exact miss_token rfl
    · exact miss_seq (hword "(")
  have hcall : Grammar.call.runWith call ⟨past, []⟩ = .miss :=
    miss_assemble (miss_sequence (miss_seq (miss_oneOrMore (miss_sequence
      (miss_seq_of_hit (hit_skip hit_spaceOptional) (miss_seq (miss_grab hargument)))))))
  have hgrab : (Parser.grab untilEnd).runWith call ⟨past, [] ++ []⟩ = .hit ⟨[].reverse ++ past, []⟩ (.text []) :=
    hit_grab hit_untilEnd
  have hunparsed : unparsed.runWith call ⟨past, []⟩ = .hit ⟨past, []⟩ (.unparsed []) := hit_assemble hgrab rfl
  have hbody : (Parser.oneOf [letIn, ifThenElse, caseOf, tuple, Grammar.call, unparsed]).runWith call ⟨past, []⟩ =
      .hit ⟨past, []⟩ (.unparsed []) := by
    refine (firstOf_of_miss hlet).trans <| (firstOf_of_miss hif).trans <| (firstOf_of_miss hcase).trans ?_
    exact (firstOf_of_miss htuple).trans <| (firstOf_of_miss hcall).trans (firstOf_of_hit hunparsed)
  have hnoise : skipNoise.runWith call (.start t) = .hit ⟨past, []⟩ () := he ▸ skipNoise_eq_hit _ call
  exact ⟨⟨past, []⟩, hit_sequence (hit_gather_cons (hit_skip hnoise) (hit_gather_cons hbody hit_gather_nil))⟩

end Grammar

/-- At any depth, rules come to the same on a settled text as with a newline after it. -/
theorem Rule.agree (depth : Nat) : RulesAgree (Rule.run depth) := by
  induction depth with
  | zero => exact ⟨fun _ _ _ => .halt .tooDeep, fun _ _ _ => .halt .tooDeep, fun _ _ => .halt .tooDeep⟩
  | succ depth ih =>
    refine ⟨Grammar.expr_agrees (Rule.good depth) ih, Grammar.ifThenElse_agrees (Rule.good depth) ih, fun t ht => ?_⟩
    obtain ⟨d, hd⟩ := Grammar.expr_of_blank ht
    obtain ⟨d', hd'⟩ := Grammar.expr_of_blank (t := []) rfl
    have hrun : Rule.run (depth + 1) .expr (.start t) = .hit d (.unparsed []) := hd
    have hrun' : Rule.run (depth + 1) .expr (.start []) = .hit d' (.unparsed []) := hd'
    rw [hrun, hrun']
    exact .hit trivial rfl

end Offside
