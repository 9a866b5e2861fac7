import Offside.Proofs.Cursor.Prefix
import Offside.Proofs.Document.Visits
import Offside.Proofs.Parser.Inversion

/-!
# Where missing definitions are reported

A parse that expected something else than it found expected the definitions of a `let`. They are looked for in a text of
their own, and the fault tells a place of that text: its offset is counted from the start of the definitions, not from the
start of the document. `MissesDefinitions` says which part of the document that is.
-/

namespace Offside

open Cursor Grammar Offside.Parser

/-! ## Parsers that expect nothing -/

/-- Whether a fault tells what was expected. -/
def Fault.IsExpected : Fault → Prop
  | .expected _ _ _ => True
  | _ => False

/-- A step that is not refused for want of something expected. -/
def Undemanding {α : Type} (e : Except Fault α) : Prop :=
  ∀ fault, e = .error fault → ¬fault.IsExpected

namespace Undemanding

variable {α β : Type} {e : Except Fault α} {fault : Fault}

theorem ok (a : α) : Undemanding (.ok a) := fun _ h => by cases h

theorem error (h : ¬fault.IsExpected) : Undemanding (.error fault : Except Fault α) := by
  rintro _ ⟨⟩
  exact h

theorem bind {next : α → Except Fault β} (he : Undemanding e) (hnext : ∀ a, Undemanding (next a)) :
    Undemanding (e.bind next) := by
  intro fault h
  cases e with
  | error fault' => exact he fault (congrArg Except.error (Except.error.inj h))
  | ok a => exact hnext a fault h

theorem map (f : α → β) (he : Undemanding e) : Undemanding (e.map f) := by
  intro fault h
  cases e with
  | error fault' => exact he fault (congrArg Except.error (Except.error.inj h))
  | ok a => cases h

theorem mapM {read : α → Except Fault β} (hread : ∀ a, Undemanding (read a)) (as : List α) :
    Undemanding (as.mapM read) := by
  induction as with
  | nil => exact ok []
  | cons a as ih =>
    rw [List.mapM_cons]
    exact (hread a).bind fun _ => ih.bind fun _ => ok _

/-! ### Layout -/

variable (c : Cursor)

theorem indentLevel : Undemanding c.indentLevel := by
  unfold Cursor.indentLevel
  split
  · split
    · exact error id
    · exact ok _
  · exact error id

theorem skipLines (keep : Nat → Bool) : Undemanding (c.skipLines keep) := by
  fun_induction Cursor.skipLines keep c with
  | case1 c hdone => exact ok c
  | case2 c hdone fault hlevel => exact error (indentLevel c fault hlevel)
  | case3 c hdone level hlevel hkeep ih => exact ih
  | case4 c hdone level hlevel hkeep => exact ok c

theorem skipBlock (keep : Nat → Nat → Bool) : Undemanding (c.skipBlock keep) := by
  unfold Cursor.skipBlock
  split
  · exact ok c
  · exact (indentLevel c).bind fun _ => skipLines _ _

theorem extentStop (e : Extent) : Undemanding (c.extentStop e) := by
  cases e with
  | block => exact skipBlock c _
  | level => exact skipBlock c _
  | restOfBlock =>
    simp only [Cursor.extentStop]
    split
    · exact ok _
    · exact (indentLevel _).bind fun _ => skipLines _ _

/-! ### Captures -/

variable (form : Form) (captured : Node)

theorem pair : Undemanding (form.pair captured) := by
  unfold Form.pair
  split
  · exact ok _
  · exact error id

theorem triple : Undemanding (form.triple captured) := by
  unfold Form.triple
  split
  · exact ok _
  · exact error id

theorem textOf : Undemanding (form.textOf captured) := by
  unfold Form.textOf
  split
  · exact ok _
  · exact error id

theorem itemsOf : Undemanding (form.itemsOf captured) := by
  unfold Form.itemsOf
  split
  · exact ok _
  · exact error id

theorem bindingOf : Undemanding (form.bindingOf captured) := by
  unfold Form.bindingOf
  split
  · exact ok _
  · exact error id

theorem armOf : Undemanding (form.armOf captured) := by
  unfold Form.armOf
  split
  · exact ok _
  · exact error id

theorem trimmedOf : Undemanding (form.trimmedOf captured) :=
  (textOf form captured).map Text.trim

theorem textsOf : Undemanding (form.textsOf captured) :=
  (itemsOf form captured).bind (mapM (textOf form))

/-- Captures of a wrong shape are no want of something expected. -/
theorem assemble : Undemanding (form.assemble captured) := by
  cases form with
  | moduleDecl => exact (pair _ captured).bind fun _ => (textOf _ _).bind fun _ => (textsOf _ _).bind fun _ => ok _
  | importDecl => exact (pair _ captured).bind fun _ => (trimmedOf _ _).bind fun _ => (trimmedOf _ _).bind fun _ => ok _
  | typeDecl => exact (pair _ captured).bind fun _ => (trimmedOf _ _).bind fun _ => (textOf _ _).bind fun _ => ok _
  | signature => exact (trimmedOf _ captured).map _
  | head => exact (pair _ captured).bind fun _ => (textOf _ _).bind fun _ => (textsOf _ _).bind fun _ => ok _
  | binding =>
    refine (pair _ captured).bind fun parts => ?_
    split
    · exact ok _
    · exact error id
  | letIn => exact (pair _ captured).bind fun _ => (itemsOf _ _).bind fun _ => (mapM (bindingOf _) _).bind fun _ => ok _
  | ifThenElse => exact (triple _ captured).bind fun _ => ok _
  | caseHead => exact (trimmedOf _ captured).map _
  | pattern => exact (trimmedOf _ captured).map _
  | arm =>
    refine (pair _ captured).bind fun parts => ?_
    split
    · exact ok _
    · exact error id
  | caseOf =>
    refine (pair _ captured).bind fun parts => ?_
    split
    · exact (itemsOf _ _).bind fun _ => (mapM (armOf _) _).bind fun _ => ok _
    · exact error id
  | tuple => exact (trimmedOf _ captured).map _
  | call => exact (textsOf _ captured).map _
  | unparsed => exact (trimmedOf _ captured).map _

end Undemanding

/-- A parser that expects nothing: that something is not there only keeps it from matching. -/
def Parser.Unassuming {α : Type} : Parser α → Prop
  | .scan _ => True
  | .extent _ => True
  | .ret _ => True
  | .fail => True
  | .ofRule _ _ => True
  | .named _ p => p.Unassuming
  | .map _ p => p.Unassuming
  | .transform f p => p.Unassuming ∧ ∀ v, Undemanding (f v)
  | .seq _ p q => p.Unassuming ∧ q.Unassuming
  | .or p q => p.Unassuming ∧ q.Unassuming
  | .choose _ p q => p.Unassuming ∧ q.Unassuming
  | .optional p => p.Unassuming
  | .many p => p.Unassuming
  | .filter _ p => p.Unassuming
  | .lookahead p => p.Unassuming
  | .expect _ _ => False
  | .grab p => p.Unassuming
  | .twoPass delimiter content => delimiter.Unassuming ∧ content.Unassuming
  | .indented content => content.Unassuming

/-- Such a parser does not raise the fault of an expectation by itself. -/
theorem Parser.Unassuming.not_isExpected {call : Rule → Cursor → Outcome Node} {α : Type} {p : Parser α}
    (hp : p.Unassuming) {c : Cursor} {fault : Fault} (h : p.Raises call c fault) : ¬fault.IsExpected := by
  induction p generalizing c with
  | scan s => exact h.elim
  | extent e => exact Undemanding.extentStop c e fault h
  | ret value => exact h.elim
  | fail => exact h.elim
  | ofRule n r => exact h.elim
  | named n p ih => exact ih hp h
  | map f p ih => exact ih hp h
  | transform f p ih =>
    rcases h with h | ⟨_, v, _, h⟩
    · exact ih hp.1 h
    · exact hp.2 v fault h
  | seq combine p q ihp ihq =>
    rcases h with h | ⟨_, _, _, h⟩
    · exact ihp hp.1 h
    · exact ihq hp.2 h
  | or p q ihp ihq =>
    rcases h with h | ⟨_, h⟩
    · exact ihp hp.1 h
    · exact ihq hp.2 h
  | choose test p q ihp ihq =>
    unfold Raises at h
    split at h
    · exact ihp hp.1 h
    · exact ihq hp.2 h
  | optional p ih => exact ih hp h
  | many p ih =>
    obtain ⟨_, _, h⟩ := h
    exact ih hp h
  | filter keep p ih => exact ih hp h
  | lookahead p ih => exact ih hp h
  | expect what p ih => exact hp.elim
  | grab p ih => exact ih hp h
  | twoPass delimiter content ihd ihc =>
    rcases h with h | ⟨_, _, _, _, h⟩
    · exact ihd hp.1 h
    · exact ihc hp.2 h
  | indented content ih =>
    rcases h with h | ⟨_, _, _, _, h⟩
    · exact Undemanding.extentStop c .level fault h
    · exact ih hp h

/-! ### The rules that expect nothing -/

namespace Parser

attribute [local simp] Unassuming

@[simp] theorem unassuming_chain (ps : List (Parser Unit)) : (chain ps).Unassuming ↔ ∀ p ∈ ps, p.Unassuming := by
  fun_induction chain ps with
  | case1 => simp
  | case2 p => simp
  | case3 p ps hps ih => rw [andThen, Unassuming, ih, List.forall_mem_cons]

@[simp] theorem unassuming_sequence (ps : List (Parser Node)) :
    (sequence ps).Unassuming ↔ ∀ p ∈ ps, p.Unassuming := by
  have hgather : (gather ps).Unassuming ↔ ∀ p ∈ ps, p.Unassuming := by
    induction ps with
    | nil => simp [gather]
    | cons p ps ih => rw [gather, Unassuming, ih, List.forall_mem_cons]
  exact hgather

@[simp] theorem unassuming_oneOf {α : Type} (ps : List (Parser α)) :
    (oneOf ps).Unassuming ↔ ∀ p ∈ ps, p.Unassuming := by
  have hfirst : (firstOf ps).Unassuming ↔ ∀ p ∈ ps, p.Unassuming := by
    induction ps with
    | nil => simp [firstOf]
    | cons p ps ih => rw [firstOf, Unassuming, ih, List.forall_mem_cons]
  exact hfirst

@[simp] theorem unassuming_assemble (form : Form) (p : Parser Node) : (assemble form p).Unassuming ↔ p.Unassuming :=
  ⟨fun h => h.1, fun h => ⟨h, Undemanding.assemble form⟩⟩

@[simp] theorem unassuming_keyword (word : String) : (keyword word).Unassuming := trivial

@[simp] theorem unassuming_skip (p : Parser Unit) : (skip p).Unassuming ↔ p.Unassuming := Iff.rfl

@[simp] theorem unassuming_subBlock {α : Type} (word : String) (content : Parser α) :
    (subBlock word content).Unassuming ↔ content.Unassuming := by
  simp [subBlock, andThen, spaceOptional, Parser.line]

@[simp] theorem unassuming_keywordBlock (word : String) : (keywordBlock word).Unassuming := by
  simp [keywordBlock, onlyIf, andThen]

end Parser

section Rules

attribute [local simp] Unassuming andThen onlyIf many1 zeroOrMore oneOrMore separatedBy parenGroup spaceOptional spaceRequired Parser.line
  untilEnd token

@[simp] theorem Grammar.comment_unassuming : comment.Unassuming := by
  simp [comment, docComment, blockComment, lineComment]

@[simp] theorem Grammar.signatureExtent_unassuming : signatureExtent.Unassuming := by
  simp [signatureExtent]

@[simp] theorem Grammar.skipNoise_unassuming : skipNoise.Unassuming := by
  simp [skipNoise, noise]

@[simp] theorem Grammar.upToLineEnding_unassuming (word : String) (content : Parser Node) :
    (upToLineEnding word content).Unassuming ↔ content.Unassuming := by
  simp [upToLineEnding]

@[simp] theorem Grammar.head_unassuming : head.Unassuming := by
  simp [head]

@[simp] theorem Grammar.binding_unassuming : binding.Unassuming := by
  simp [binding, nestedExpr]

@[simp] theorem Grammar.ifThenElse_unassuming : ifThenElse.Unassuming := by
  simp [ifThenElse, nestedExpr]

@[simp] theorem Grammar.caseHead_unassuming : caseHead.Unassuming := by
  simp [caseHead]

@[simp] theorem Grammar.pattern_unassuming : pattern.Unassuming := by
  simp [pattern]

@[simp] theorem Grammar.arm_unassuming : arm.Unassuming := by
  simp [arm, nestedExpr]

@[simp] theorem Grammar.caseOf_unassuming : caseOf.Unassuming := by
  simp [caseOf]

@[simp] theorem Grammar.tuple_unassuming : tuple.Unassuming := by
  simp [tuple]

@[simp] theorem Grammar.call_unassuming : Grammar.call.Unassuming := by
  simp [Grammar.call]

@[simp] theorem Grammar.unparsed_unassuming : unparsed.Unassuming := by
  simp [unparsed]

/-- Apart from `let`, which is an expression too, no rule expects anything. -/
theorem Rule.unassuming_body {r : Rule} (hlet : r ≠ .letIn) (hexpr : r ≠ .expr) : r.body.Unassuming := by
  cases r with
  | letIn => exact absurd rfl hlet
  | expr => exact absurd rfl hexpr
  | moduleDecl => simp [Rule.body, Grammar.moduleDecl]
  | importDecl => simp [Rule.body, Grammar.importDecl]
  | signature => simp [Rule.body, Grammar.signature]
  | typeDecl => simp [Rule.body, Grammar.typeDecl]
  | head => simp [Rule.body]
  | binding => simp [Rule.body]
  | ifThenElse => simp [Rule.body]
  | caseHead => simp [Rule.body]
  | pattern => simp [Rule.body]
  | arm => simp [Rule.body]
  | caseOf => simp [Rule.body]
  | tuple => simp [Rule.body]
  | call => simp [Rule.body]
  | unparsed => simp [Rule.body]
  | topLevelItem =>
    simp [Rule.body, Grammar.topLevelItem, Grammar.moduleDecl, Grammar.importDecl, Grammar.signature, Grammar.typeDecl]
  | statement => simp [Rule.body, Grammar.statement]

/-- The items of a document expect nothing. -/
theorem Options.unassuming_items (o : Options) : o.items.Unassuming := by
  have hitem : o.item.Unassuming := by
    unfold Options.item
    split
    · exact ⟨Rule.unassuming_body (r := .topLevelItem) (by decide) (by decide), Rule.unassuming_body (r := .statement) (by decide) (by decide)⟩
    · exact Rule.unassuming_body (r := .topLevelItem) (by decide) (by decide)
  unfold Options.items
  split
  · simpa [manyUntil] using hitem
  · exact hitem

end Rules

/-! ## The definitions of a `let` -/

section Let

variable {call : Rule → Cursor → Outcome Node} {c : Cursor} {fault : Fault}

/-- What a body expects by itself, its content expects in the text of the body. -/
theorem Parser.exists_of_raises_subBlock {α : Type} {word : String} {p : Parser α}
    (h : (subBlock word p).Raises call c fault) (hexpected : fault.IsExpected) :
    (c.skipWhile isBlank).matchesWord word.toList ∧
      ∃ span last, ((c.skipWhile isBlank).advance word.toList.length).Body span last ∧ p.Raises call (.start span) fault := by
  have hkeyword : (spaceOptional.andThen (keyword word)).Unassuming := ⟨trivial, trivial⟩
  have hlines : (Parser.line.andThen spaceOptional).Unassuming := ⟨trivial, trivial⟩
  rcases h with h | ⟨after, _, hopen, h⟩
  · exact absurd hexpected (hkeyword.not_isExpected h)
  obtain ⟨hword, rfl⟩ := hit_blanks_keyword_iff.mp hopen
  refine ⟨hword, ?_⟩
  unfold Raises at h
  split at h
  · next hbare =>
    rcases h with h | ⟨next, _, hline, h | ⟨last, span, hlast, hspan, h⟩⟩
    · exact absurd hexpected (hlines.not_isExpected h)
    · exact absurd hexpected (Undemanding.extentStop _ _ _ h)
    · obtain rfl := hit_nextLine_iff.mp hline
      exact ⟨span, last, ⟨by rw [bodyStop, if_pos hbare, hlast], by rw [bodyStart, if_pos hbare, hspan]⟩, h⟩
  · next hbare =>
    rcases h with h | ⟨last, span, hlast, hspan, h⟩
    · exact absurd hexpected (Undemanding.extentStop _ _ _ h)
    · have hstop := hit_extent_iff.mp hlast
      exact ⟨span, last, ⟨by rw [bodyStop, if_neg hbare, hstop], by rw [bodyStart, if_neg hbare, hspan]⟩, h⟩

/-- The run of a `let` at a cursor finds no definition in the text of its body, and the fault shows the start of that. -/
structure MissesDefinitions (call : Rule → Cursor → Outcome Node) (c : Cursor) (span : Text) (last : Cursor)
    (fault : Fault) : Prop where
  /-- The word stands at the cursor. -/
  word : c.matchesWord "let".toList
  /-- The text of its body. -/
  body : (c.advance "let".toList.length).Body span last
  /-- No definition begins there. -/
  misses : (oneOrMore (sequence [skip skipNoise, binding])).runWith call (.start span) = .miss
  /-- The fault. -/
  fault : fault = .expected "let bindings" 0 (span.take reportWidth)

/-- A `let` expects its definitions and nothing else. -/
theorem Grammar.missesDefinitions_of_raises_letIn (h : letIn.Raises call c fault) (hexpected : fault.IsExpected) :
    ∃ span last, MissesDefinitions call (c.skipWhile isBlank) span last fault := by
  have hdefinitions : (oneOrMore (sequence [skip skipNoise, binding])).Unassuming := by
    simp [oneOrMore, many1, Unassuming]
  have hbody : (subBlock "in" nestedExpr).Unassuming := by simp [nestedExpr, Unassuming]
  rcases h with (h | ⟨_, _, _, h | ⟨_, _, _, h⟩⟩) | ⟨_, v, _, h⟩
  · obtain ⟨hword, span, last, hspan, h | ⟨hmiss, hfault⟩⟩ := exists_of_raises_subBlock h hexpected
    · exact absurd hexpected (hdefinitions.not_isExpected h)
    · exact ⟨span, last, hword, hspan, hmiss, hfault⟩
  · exact absurd hexpected (hbody.not_isExpected h)
  · exact h.elim
  · exact absurd hexpected (Undemanding.assemble _ _ _ h)

/-- What an expression expects by itself, the `let` expects that it is, past the noise. -/
theorem Grammar.missesDefinitions_of_raises_expr (h : expr.Raises call c fault) (hexpected : fault.IsExpected) :
    ∃ span last, MissesDefinitions call (noiseStop c) span last fault := by
  have hskip : (skip skipNoise).Unassuming := by simp
  have hothers : (firstOf [ifThenElse, caseOf, tuple, Grammar.call, unparsed]).Unassuming := by
    simp [firstOf, Unassuming]
  rcases h with h | ⟨d, _, hnoise, (h | ⟨-, h⟩) | ⟨_, _, _, h⟩⟩
  · exact absurd hexpected (hskip.not_isExpected h)
  · obtain ⟨rfl, -⟩ := eq_noiseStop_of_hit hnoise
    rw [← skipWhile_eq_self (next?_noiseStop c)]
    exact missesDefinitions_of_raises_letIn h hexpected
  · exact absurd hexpected (hothers.not_isExpected h)
  · exact h.elim

end Let

/-- A parse that fails for want of something expected comes upon an expression that halts so: a `let` without definitions. -/
theorem missesDefinitions_of_parseWithin {depth : Nat} {o : Options} {t : Text} {fault : Fault}
    (h : parseWithin depth o t = .error (.fault fault)) (hexpected : fault.IsExpected) :
    ∃ inner c span last, Visits o t .expr c ∧ Rule.run (inner + 1) .expr c = .halt (.fault fault) ∧
      MissesDefinitions (Rule.run inner) (noiseStop c) span last fault := by
  rcases raises_of_parseWithin h with hitems | ⟨_, _, _, rfl⟩ | ⟨inner, r, c, hv, hrun, hraises⟩
  · exact absurd hexpected (o.unassuming_items.not_isExpected hitems)
  · exact hexpected.elim
  · rcases hv.eq_expr_or_ifThenElse with rfl | rfl
    · obtain ⟨span, last, hmisses⟩ := missesDefinitions_of_raises_expr hraises hexpected
      exact ⟨inner, c, span, last, hv, hrun, hmisses⟩
    · exact absurd hexpected (ifThenElse_unassuming.not_isExpected hraises)

/-- A fault tells of the definitions of a `let` that are not there, whatever the options. An expression comes up in the
parse that halts with it: past the noise it is a `let`, and no definition is found in the text of the body of that. The
fault tells the start of this text, and shows its first characters. Counted from the start of the document, the offset is
that of the body more, and the document goes on there with what the fault shows. -/
theorem expected_within_let_span {depth : Nat} {o : Options} {t : Text} {what : String} {offset : Nat} {found : Text}
    (h : parseWithin depth o t = .error (.fault (.expected what offset found))) :
    what = "let bindings" ∧ offset = 0 ∧ ∃ (inner : Nat) (before : Text) (c k last : Cursor) (span : Text),
      VisitsAt o t before .expr c ∧ Rule.run (inner + 1) .expr c = .halt (.fault (.expected what offset found)) ∧
      (noiseStop c).matchesWord "let".toList ∧ k = (noiseStop c).advance "let".toList.length ∧ k.Body span last ∧
      (oneOrMore (sequence [skip skipNoise, binding])).run inner (.start span) = .miss ∧ found = span.take reportWidth ∧
      (∃ after, t = before ++ c.text ++ after) ∧
      ∃ place, (start t).seek? (before.utf8Size + k.bodyStart.offset + offset) = some place ∧ found <+: place.rest := by
  obtain ⟨inner, c, span, last, hv, hrun, hword, hspan, hmiss, hfault⟩ := missesDefinitions_of_parseWithin h trivial
  obtain ⟨rfl, rfl, rfl⟩ : what = "let bindings" ∧ offset = 0 ∧ found = span.take reportWidth := by simpa using hfault
  obtain ⟨before, hat⟩ := hv.exists_at
  obtain ⟨after, ht⟩ := hat.exists_text_eq
  refine ⟨rfl, rfl, inner, before, c, _, last, span, hat, hrun, hword, rfl, hspan, hmiss, rfl, ⟨after, ht⟩, ?_⟩
  have htext : ((noiseStop c).advance "let".toList.length).bodyStart.text = c.text := by
    rw [text_bodyStart, text_advance, text_noiseStop]
  obtain ⟨place, hplace, hrest⟩ := exists_seek?_of_part _ _ (htext.symm ▸ ht)
  exact ⟨place, hplace, ((List.take_prefix reportWidth span).trans hspan.prefix_rest).trans hrest⟩

/-- The definitions of this `let` are not there. They were looked for on the line after it, which begins ten bytes into the
document. -/
theorem expected_within_let_span_below :
    parse "f =\n  let\n    x\n".toList = .error (.fault (.expected "let bindings" 0 "    x\n".toList)) ∧
      ∃ (inner : Nat) (before : Text) (c k last : Cursor) (span : Text),
        VisitsAt {} "f =\n  let\n    x\n".toList before .expr c ∧
        Rule.run (inner + 1) .expr c = .halt (.fault (.expected "let bindings" 0 "    x\n".toList)) ∧
        (noiseStop c).matchesWord "let".toList ∧ k = (noiseStop c).advance "let".toList.length ∧ k.Body span last ∧
        (oneOrMore (sequence [skip skipNoise, binding])).run inner (.start span) = .miss ∧
        "    x\n".toList = span.take reportWidth ∧
        (∃ after, "f =\n  let\n    x\n".toList = before ++ c.text ++ after) ∧
        ∃ place, (start "f =\n  let\n    x\n".toList).seek? (before.utf8Size + k.bodyStart.offset + 0) = some place ∧
          "    x\n".toList <+: place.rest := by
  have hparse : parse "f =\n  let\n    x\n".toList = .error (.fault (.expected "let bindings" 0 "    x\n".toList)) := by
    decide +kernel
  exact ⟨hparse, (expected_within_let_span hparse).2.2⟩

/-- The offset of a fault is not one of the document: here the document does not go on there with what the fault shows. -/
theorem expected_offset_not_of_document :
    parse "f =\n  let\n    x\n".toList = .error (.fault (.expected "let bindings" 0 "    x\n".toList)) ∧
      ¬∃ place, (start "f =\n  let\n    x\n".toList).seek? 0 = some place ∧ "    x\n".toList <+: place.rest := by
  refine ⟨by decide +kernel, ?_⟩
  rintro ⟨place, hplace, hfound⟩
  obtain rfl : start "f =\n  let\n    x\n".toList = place := Option.some.inj ((seek?_offset _).symm.trans hplace)
  exact absurd hfound (by decide)

end Offside
