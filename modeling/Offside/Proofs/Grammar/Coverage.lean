import Offside.Proofs.Grammar.Branches

/-!
# What a match leaves unread

An expression goes to the end of its text or ends where the last body of a `let`, a condition or a case does: at a line
that is too far out to go with that body. Inside, the arms of a case and the definitions of a `let` are read one after the
other in a span of their own, up to a line that cannot begin another; what the span holds from there on is dropped.
-/

namespace Offside

open Cursor Grammar Offside.Parser

/-! ## Last bodies -/

/-- The first branch of a condition that begins at a cursor: it stops at another, where the second branch is looked for. -/
def Grammar.FirstBranch (c stop : Cursor) (yes : Node) : Prop :=
  ∃ depth mid vs, (gather uptoThen).run depth c = .hit mid vs ∧ yesBranch.run depth mid = .hit stop yes

/-- A node that begins at a cursor ends with the body past another: the last part of the node is what is read in the text
of that body. -/
inductive Node.LastBody : Node → Cursor → Cursor → Text → Prop where
  /-- An expression, past the `in` where the definitions stop. -/
  | letIn {bindings : List Binding} {body : Node} {depth : Nat} {c mid stop : Cursor} {definitions span : Text}
      (opens : (c.skipWhile isBlank).matchesWord "let".toList)
      (upto : ((c.skipWhile isBlank).advance "let".toList.length).Body definitions mid)
      (word : (mid.skipWhile isBlank).matchesWord "in".toList)
      (read : nestedExpr.run depth (.start span) = .hit stop body) :
      LastBody (.letIn bindings body) c ((mid.skipWhile isBlank).advance "in".toList.length) span
  /-- An expression, past the `else` where the first branch stops. -/
  | ifThenElse {condition yes no : Node} {depth : Nat} {c mid stop : Cursor} {span : Text}
      (upto : FirstBranch c mid yes) (word : (mid.skipWhile isBlank).matchesWord "else".toList)
      (read : nestedExpr.run depth (.start span) = .hit stop no) :
      LastBody (.ifThenElse condition yes no) c ((mid.skipWhile isBlank).advance "else".toList.length) span
  /-- The last body of another condition, past that `else`. -/
  | elseIf {condition yes no : Node} {depth : Nat} {c mid inner k stop : Cursor} {span : Text}
      (upto : FirstBranch c mid yes) (word : (mid.skipWhile isBlank).matchesWord "else".toList)
      (place : inner = ((mid.skipWhile isBlank).advance "else".toList.length).skipWhile isBlank)
      (read : Rule.run depth .ifThenElse inner = .hit stop no) (last : no.LastBody inner k span) :
      LastBody (.ifThenElse condition yes no) c k span
  /-- The arms of a case, below its first line. -/
  | caseOf {subject : Text} {arms : List Arm} {depth : Nat} {c stop : Cursor} {span : Text}
      (word : c.matchesWord "case".toList) (read : (many Grammar.arm).run depth (.start span) = .hit stop (arms.map .arm)) :
      LastBody (.caseOf subject arms) c (c.skipWhile (· != '\n')) span

/-- A body stops no earlier than the cursor past its keyword. -/
theorem Cursor.Body.le {k stop : Cursor} {span : Text} (h : k.Body span stop) : k ≤ stop := by
  have hstop := h.stop
  unfold bodyStop at hstop
  split at hstop
  · exact le_trans (le_nextLine k) (le_of_extentStop hstop)
  · exact le_of_extentStop hstop

/-- A place past a word after blanks is no earlier than the blanks. -/
theorem Cursor.le_advance_skipWhile (c : Cursor) (n : Nat) : c ≤ (c.skipWhile isBlank).advance n :=
  le_trans (le_skipWhile c _) (le_advance _ n)

theorem Grammar.FirstBranch.le {c stop : Cursor} {yes : Node} (h : FirstBranch c stop yes) : c ≤ stop := by
  obtain ⟨depth, mid, vs, hupto, hyes⟩ := h
  calc
    c ≤ mid := (gather uptoThen).le_of_hit (Rule.forward depth) hupto
    _ ≤ stop := yesBranch.le_of_hit (Rule.forward depth) hyes

/-- The last body of a node begins no earlier than the node. -/
theorem Node.LastBody.le {v : Node} {c k : Cursor} {span : Text} (h : v.LastBody c k span) : c ≤ k := by
  induction h with
  | @letIn _ _ _ c mid _ _ _ _ upto _ _ =>
    calc
      c ≤ _ := le_advance_skipWhile c _
      _ ≤ mid := upto.le
      _ ≤ _ := le_advance_skipWhile mid _
  | @ifThenElse _ _ _ _ c mid _ _ upto _ _ =>
    calc
      c ≤ mid := upto.le
      _ ≤ _ := le_advance_skipWhile mid _
  | @elseIf _ _ _ _ c mid inner k _ _ upto _ place _ _ ih =>
    calc
      c ≤ mid := upto.le
      _ ≤ (mid.skipWhile isBlank).advance "else".toList.length := le_advance_skipWhile mid _
      _ ≤ inner := place ▸ le_skipWhile _ _
      _ ≤ k := ih
  | caseOf word read => exact le_skipWhile _ _

/-- A match of a node from one place to another leaves nothing of the text, or ends with the last body of the node, at a
line that does not go with it. -/
def Node.Covers (v : Node) (c e : Cursor) : Prop :=
  e.isDone ∨ ∃ k span, v.LastBody c k span ∧ k.Body span e ∧ k.Outdents e

/-- A match that ends with the last body of a node covers. -/
theorem Node.Covers.of_body {v : Node} {c k e : Cursor} {span : Text} (hlast : v.LastBody c k span) (hbody : k.Body span e) :
    v.Covers c e :=
  (bodyStop_outdents hbody.stop).imp_right fun hout => ⟨k, span, hlast, hbody, hout⟩

namespace Grammar

variable {call : Rule → Cursor → Outcome Node} {c d e : Cursor} {v : Node}

/-! ## The parts of a `let` and of a case -/

/-- Local definitions are a body of `let` and a body of `in`. -/
theorem exists_of_hit_letIn (h : letIn.runWith call c = .hit e v) :
    ∃ mid bindings body,
      (subBlock "let" (expect "let bindings" (oneOrMore (sequence [skip skipNoise, binding])))).runWith call c =
        .hit mid bindings ∧
      (subBlock "in" nestedExpr).runWith call mid = .hit e body ∧
      Form.letIn.assemble (Node.collapse [bindings, body]) = .ok v := by
  obtain ⟨captured, hparts, hv⟩ := hit_assemble_iff.mp (hit_named_iff.mp h)
  obtain ⟨vs, hlist, rfl⟩ := hit_sequence_iff.mp hparts
  obtain ⟨mid, bindings, _, hlet, hrest, rfl⟩ := hit_gather_cons_iff.mp hlist
  obtain ⟨stop, body, _, hin, hend, rfl⟩ := hit_gather_cons_iff.mp hrest
  obtain ⟨rfl, rfl⟩ := hit_gather_nil_iff.mp hend
  exact ⟨mid, bindings, body, hlet, hin, hv⟩

/-- A case is its first line and a body of arms. -/
theorem exists_of_hit_caseOf (hcall : Forward call) (h : caseOf.runWith call c = .hit e v) :
    c.matchesWord "case".toList ∧ ∃ subject t stop arms, (c.skipWhile (· != '\n')).Body t e ∧
      (oneOrMore arm).runWith call (.start t) = .hit stop arms ∧
      Form.caseOf.assemble (Node.collapse [.caseHead subject, .ignore, arms]) = .ok v := by
  obtain ⟨captured, hparts, hv⟩ := hit_assemble_iff.mp (hit_named_iff.mp h)
  obtain ⟨vs, hlist, rfl⟩ := hit_sequence_iff.mp hparts
  obtain ⟨mid, first, _, hhead, hrest, rfl⟩ := hit_gather_cons_iff.mp hlist
  obtain ⟨next, ignored, _, hspace, hlast, rfl⟩ := hit_gather_cons_iff.mp hrest
  obtain ⟨stop, arms, _, hbody, hend, rfl⟩ := hit_gather_cons_iff.mp hlast
  obtain ⟨rfl, rfl⟩ := hit_gather_nil_iff.mp hend
  obtain ⟨⟨subject, -, rfl⟩, hword, rfl, -⟩ := (caseHead_ensures hcall c).hits mid first hhead
  obtain ⟨hblanks, rfl⟩ := hit_skip_iff.mp hspace
  obtain rfl := hit_spaceOptional_iff.mp hblanks
  obtain ⟨t, inner, hstop, ht, harms⟩ := hit_indented_iff.mp hbody
  have hspan : (c.skipWhile (· != '\n')).Body t e :=
    ⟨(bodyStop_endOfLine c).trans hstop, bodyStart_endOfLine c ▸ ht⟩
  exact ⟨hword, subject, t, inner, arms, hspan, harms, hv⟩

/-! ## Arms and definitions -/

/-- The arms of a case are read in the span of its body up to where no line past the noise can begin another. -/
theorem caseOf_reads (hgood : Good call) (h : caseOf.runWith call c = .hit e v) :
    c.matchesWord "case".toList ∧ ∃ subject arms span stop, v = .caseOf subject arms ∧ arms ≠ [] ∧
      (c.skipWhile (· != '\n')).Body span e ∧
      (many arm).runWith call (.start span) = .hit stop (arms.map .arm) ∧
      ¬EndsIn "->".toList (noiseStop stop).restOfLine := by
  obtain ⟨hword, subject, span, stop, found, hspan, harms, hv⟩ := exists_of_hit_caseOf hgood.forward h
  obtain ⟨vs, hmany, hne, rfl⟩ := hit_oneOrMore_iff.mp harms
  have hmiss := miss_of_hit_many (fun c d v hd => ((arm_ensures hgood c).hits d v hd).1) hmany
  have hall := forall_of_hit_many (fun v => ∃ a : Arm, v = .arm a) hgood.forward (fun c d v hd => by
    obtain ⟨-, a, -, ha⟩ := (arm_ensures hgood c).hits d v hd
    exact ⟨a, ha⟩) hmany
  obtain ⟨arms, rfl⟩ := exists_eq_map hall
  have hshape := Form.assemble_caseOf subject arms
  rw [← Node.listOf_map fun _ => rfl] at hshape
  obtain rfl : .caseOf subject arms = v := Except.ok.inj (hshape.symm.trans hv)
  exact ⟨hword, subject, arms, span, stop, rfl, by simpa using hne, hspan, hmany,
    (arm_ensures hgood stop).misses hmiss⟩

/-- The definitions of a `let` are read in the span of its body up to where no line past the noise can begin another. The
expression that uses them is the body of `in`. -/
theorem letIn_reads (hgood : Good call) (h : letIn.runWith call c = .hit e v) :
    (c.skipWhile isBlank).matchesWord "let".toList ∧ ∃ bindings body last span stop, v = .letIn bindings body ∧ bindings ≠ [] ∧
      ((c.skipWhile isBlank).advance "let".toList.length).Body span last ∧
      (many (sequence [skip skipNoise, binding])).runWith call (.start span) = .hit stop (bindings.map .binding) ∧
      ¬HeadLine (noiseStop stop) ∧ (subBlock "in" nestedExpr).runWith call last = .hit e body := by
  obtain ⟨last, found, body, hlet, hin, hv⟩ := exists_of_hit_letIn h
  obtain ⟨hword, span, stop, hspan, hfound⟩ := hit_subBlock_iff.mp hlet
  obtain ⟨vs, hmany, hne, rfl⟩ := hit_oneOrMore_iff.mp (hit_expect_iff.mp hfound)
  have hmiss := miss_of_hit_many (fun c d v hd => ((noise_binding_ensures hgood c).hits d v hd).1) hmany
  have hall := forall_of_hit_many (fun v => ∃ b : Binding, v = .binding b) hgood.forward (fun c d v hd => by
    obtain ⟨-, b, -, hb⟩ := (noise_binding_ensures hgood c).hits d v hd
    exact ⟨b, hb⟩) hmany
  obtain ⟨bindings, rfl⟩ := exists_eq_map hall
  obtain ⟨-, _, _, -, hexpr⟩ := hit_subBlock_iff.mp hin
  have hbody := hgood.hits .expr _ _ _ (Or.inl rfl) hexpr
  have hshape := Form.assemble_letIn bindings body
  have hcollapse : Node.collapse [Node.listOf (bindings.map .binding), body] = .list [.list (bindings.map .binding), body] := by
    rw [Node.listOf_map fun _ => rfl]
    simp only [Node.collapse, List.filter, hbody.isIgnore]
    rfl
  obtain rfl : .letIn bindings body = v := Except.ok.inj (hshape.symm.trans (hcollapse ▸ hv))
  exact ⟨hword, bindings, body, last, span, stop, rfl, by simpa using hne, hspan, hmany,
    (noise_binding_ensures hgood stop).misses hmiss, hin⟩

/-! ## The end of an expression -/

variable {depth : Nat}

theorem letIn_covers (h : letIn.run depth c = .hit e v) : v.Covers c e := by
  obtain ⟨hopens, bindings, body, mid, _, _, rfl, -, hdefinitions, -, -, hin⟩ := letIn_reads (Rule.good depth) h
  obtain ⟨hword, span, stop, hspan, hbody⟩ := hit_subBlock_iff.mp hin
  exact .of_body (.letIn hopens hdefinitions hword hbody) hspan

theorem caseOf_covers (h : caseOf.run depth c = .hit e v) : v.Covers c e := by
  obtain ⟨hword, subject, arms, span, stop, rfl, -, hspan, harms, -⟩ := caseOf_reads (Rule.good depth) h
  exact .of_body (.caseOf hword harms) hspan

/-- A condition covers, if the condition that its second branch may be does: it ends where its second branch does. -/
theorem ifThenElse_covers (hnested : ∀ c e v, Rule.run depth .ifThenElse c = .hit e v → v.Covers c e)
    (h : ifThenElse.run depth c = .hit e v) : v.Covers c e := by
  obtain ⟨condition, yes, no, mid, stop, vs, rfl, hupto, hyes, hno⟩ := exists_of_hit_ifThenElse (Rule.good depth) h
  have hfirst : FirstBranch c stop yes := ⟨depth, mid, vs, hupto, hyes⟩
  rcases hit_noBranch (Rule.good depth) hno with ⟨hword, hif⟩ | hblock
  · refine (hnested _ e no hif).imp_right ?_
    rintro ⟨k, span, hlast, hbody, hout⟩
    exact ⟨k, span, .elseIf hfirst hword rfl hif hlast, hbody, hout⟩
  · obtain ⟨hword, span, last, hspan, hbody⟩ := hit_subBlock_iff.mp hblock
    exact .of_body (.ifThenElse hfirst hword hbody) hspan

/-- An expression is what one of the alternatives matches where the noise ends. -/
theorem exists_hit_of_expr (h : expr.runWith call c = .hit e v) :
    ∃ p ∈ [letIn, ifThenElse, caseOf, tuple, Grammar.call, unparsed], ∃ w, p.runWith call (noiseStop c) = .hit e w ∧
      v = Node.collapse [.ignore, w] := by
  obtain ⟨vs, hlist, rfl⟩ := hit_sequence_iff.mp (hit_named_iff.mp h)
  obtain ⟨d, ignored, _, hnoise, hrest, rfl⟩ := hit_gather_cons_iff.mp hlist
  obtain ⟨stop, w, _, hform, hend, rfl⟩ := hit_gather_cons_iff.mp hrest
  obtain ⟨rfl, rfl⟩ := hit_gather_nil_iff.mp hend
  obtain ⟨rfl, rfl⟩ := eq_noiseStop_of_hit hnoise
  obtain ⟨p, hp, hform⟩ := exists_hit_of_firstOf (hit_named_iff.mp hform)
  exact ⟨p, hp, w, hform, rfl⟩

/-- An expression covers, if the condition that its second branch may be does. -/
theorem expr_covers (hnested : ∀ c e v, Rule.run depth .ifThenElse c = .hit e v → v.Covers c e)
    (h : expr.run depth c = .hit e v) : v.Covers (noiseStop c) e := by
  have hgood := Rule.good depth
  have hcall := hgood.forward
  obtain ⟨p, hp, v, hform, rfl⟩ := exists_hit_of_expr h
  have hv : v.IsExpression ∧ v.Covers (noiseStop c) e := by
    simp only [List.mem_cons, List.not_mem_nil, or_false] at hp
    rcases hp with rfl | rfl | rfl | rfl | rfl | rfl
    · exact ⟨(letIn_ensures hgood _).hits e v hform, letIn_covers hform⟩
    · exact ⟨(ifThenElse_ensures hgood _).hits e v hform, ifThenElse_covers hnested hform⟩
    · exact ⟨(caseOf_ensures hgood _).hits e v hform, caseOf_covers hform⟩
    · obtain ⟨⟨t, ⟨htrimmed, -⟩, rfl⟩, hdone⟩ := (tuple_ensures hcall _).hits e v hform
      exact ⟨.tuple htrimmed, Or.inl hdone⟩
    · exact ((call_ensures hcall _).hits e v hform).imp_right Or.inl
    · exact ((unparsed_ensures hcall _).hits e v hform).imp_right Or.inl
  rw [Node.collapse_ignore, if_neg (by simp [hv.1.isIgnore])]
  exact hv.2

end Grammar

/-! ## Arms and definitions at any depth -/

/-- What a case and a `let` read of the span that they give to their arms and their definitions. A match holds the arms
that are matched in a row from the start of the span, and no others. They stop where, past noise, the rest of the line does
not end in an arrow, which may be the end of the span; what the span holds from there on is dropped. The definitions of a
`let` stop in the same way where no head of a definition comes next. -/
theorem case_and_let_read_to_the_last_opening :
    (∀ depth c e v, Rule.run (depth + 1) .caseOf c = .hit e v →
      c.matchesWord "case".toList ∧ ∃ subject arms span stop, v = .caseOf subject arms ∧ arms ≠ [] ∧
        (c.skipWhile (· != '\n')).Body span e ∧ (many arm).run depth (.start span) = .hit stop (arms.map .arm) ∧
        ¬EndsIn "->".toList (noiseStop stop).restOfLine) ∧
    ∀ depth c e v, Rule.run (depth + 1) .letIn c = .hit e v →
      (c.skipWhile isBlank).matchesWord "let".toList ∧ ∃ bindings body last span stop, v = .letIn bindings body ∧
        bindings ≠ [] ∧ ((c.skipWhile isBlank).advance "let".toList.length).Body span last ∧
        (many (sequence [skip skipNoise, binding])).run depth (.start span) = .hit stop (bindings.map .binding) ∧
        ¬HeadLine (noiseStop stop) := by
  refine ⟨fun depth _ _ _ h => caseOf_reads (Rule.good depth) h, fun depth c e v h => ?_⟩
  obtain ⟨hword, bindings, body, last, span, stop, hv, hne, hspan, hmany, hno, -⟩ := letIn_reads (Rule.good depth) h
  exact ⟨hword, bindings, body, last, span, stop, hv, hne, hspan, hmany, hno⟩

/-- A case with one arm, and a line below it that is no other. -/
theorem run_caseOf_one_arm :
    Rule.run 3 .caseOf (.start "case x of\n A ->\n  b\n c".toList) =
      .hit ⟨"case x of\n A ->\n  b\n c".toList.reverse, []⟩ (.caseOf ['x'] [⟨['A'], .call [['b']]⟩]) := by
  decide +kernel

/-- A `let` with one definition, and a line below it that is no other. -/
theorem run_letIn_one_definition :
    Rule.run 3 .letIn (.start "let\n x =\n  1\n c\nin y".toList) =
      .hit ⟨"let\n x =\n  1\n c\nin y".toList.reverse, []⟩ (.letIn [⟨⟨['x'], []⟩, .call [['1']]⟩] (.call [['y']])) := by
  decide +kernel

/-- In both the line below is dropped. -/
theorem case_and_let_read_to_the_last_opening_one :
    (Rule.run 3 .caseOf (.start "case x of\n A ->\n  b\n c".toList) =
        .hit ⟨"case x of\n A ->\n  b\n c".toList.reverse, []⟩ (.caseOf ['x'] [⟨['A'], .call [['b']]⟩]) ∧
      ∃ span stop, (Cursor.skipWhile (.start "case x of\n A ->\n  b\n c".toList) (· != '\n')).Body span
          ⟨"case x of\n A ->\n  b\n c".toList.reverse, []⟩ ∧
        (many arm).run 2 (.start span) = .hit stop [.arm ⟨['A'], .call [['b']]⟩] ∧
        ¬EndsIn "->".toList (noiseStop stop).restOfLine) ∧
    Rule.run 3 .letIn (.start "let\n x =\n  1\n c\nin y".toList) =
        .hit ⟨"let\n x =\n  1\n c\nin y".toList.reverse, []⟩ (.letIn [⟨⟨['x'], []⟩, .call [['1']]⟩] (.call [['y']])) ∧
      ∃ last span stop, (Cursor.advance (.start "let\n x =\n  1\n c\nin y".toList) "let".toList.length).Body span last ∧
        (many (sequence [skip skipNoise, binding])).run 2 (.start span) = .hit stop [.binding ⟨⟨['x'], []⟩, .call [['1']]⟩] ∧
        ¬HeadLine (noiseStop stop) := by
  refine ⟨⟨run_caseOf_one_arm, ?_⟩, run_letIn_one_definition, ?_⟩
  · obtain ⟨-, subject, arms, span, stop, hv, -, hspan, hmany, hno⟩ :=
      case_and_let_read_to_the_last_opening.1 _ _ _ _ run_caseOf_one_arm
    obtain ⟨rfl, rfl⟩ : ['x'] = subject ∧ [⟨['A'], .call [['b']]⟩] = arms := by simpa using hv
    exact ⟨span, stop, hspan, hmany, hno⟩
  · obtain ⟨-, bindings, body, last, span, stop, hv, -, hspan, hmany, hno⟩ :=
      case_and_let_read_to_the_last_opening.2 _ _ _ _ run_letIn_one_definition
    obtain ⟨rfl, -⟩ : [⟨⟨['x'], []⟩, .call [['1']]⟩] = bindings ∧ .call [['y']] = body := by simpa using hv
    exact ⟨last, span, stop, hspan, hmany, hno⟩

/-- So neither the arms of a case nor the definitions of a `let` always reach the end of their span, up to noise. -/
theorem case_and_let_drop_lines :
    (¬∀ depth c e v span stop found, Rule.run (depth + 1) .caseOf c = .hit e v →
      (c.skipWhile (· != '\n')).Body span e → (many arm).run depth (.start span) = .hit stop found →
      (noiseStop stop).isDone) ∧
    ¬∀ depth c e v last span stop found, Rule.run (depth + 1) .letIn c = .hit e v →
      ((c.skipWhile isBlank).advance "let".toList.length).Body span last →
      (many (sequence [skip skipNoise, binding])).run depth (.start span) = .hit stop found → (noiseStop stop).isDone := by
  constructor
  · intro h
    have hspan : (Cursor.skipWhile (.start "case x of\n A ->\n  b\n c".toList) (· != '\n')).Body
        " A ->\n  b\n c".toList ⟨"case x of\n A ->\n  b\n c".toList.reverse, []⟩ :=
      ⟨by decide +kernel, by decide +kernel⟩
    have harms : (many arm).run 2 (.start " A ->\n  b\n c".toList) =
        .hit ⟨" A ->\n  b\n ".toList.reverse, ['c']⟩ [.arm ⟨['A'], .call [['b']]⟩] := by decide +kernel
    exact absurd (h _ _ _ _ _ _ _ run_caseOf_one_arm hspan harms) (by decide +kernel)
  · intro h
    have hspan : (Cursor.advance (.start "let\n x =\n  1\n c\nin y".toList) "let".toList.length).Body
        " x =\n  1\n c\n".toList ⟨"let\n x =\n  1\n c\n".toList.reverse, "in y".toList⟩ :=
      ⟨by decide +kernel, by decide +kernel⟩
    have hfound : (many (sequence [skip skipNoise, binding])).run 2 (.start " x =\n  1\n c\n".toList) =
        .hit ⟨" x =\n  1\n ".toList.reverse, "c\n".toList⟩ [.binding ⟨⟨['x'], []⟩, .call [['1']]⟩] := by decide +kernel
    exact absurd (h _ _ _ _ _ _ _ _ run_letIn_one_definition hspan hfound) (by decide +kernel)

/-- At any depth, a condition covers. -/
theorem Rule.ifThenElse_covers {depth : Nat} {c e : Cursor} {v : Node} (h : Rule.run depth .ifThenElse c = .hit e v) :
    v.Covers c e := by
  induction depth generalizing c e v with
  | zero => cases h
  | succ depth ih => exact Grammar.ifThenElse_covers (fun _ _ _ hnested => ih hnested) h

/-- An expression covers its span: a match goes to the end of the text, unless it is of a `let`, a condition or a case. Of
these it goes to where the last body of the node stops, after `in`, after `else` or below the first line of the case: the
body that the last part of the node was read in. Then what is left unread begins with a line that is too far out to go with
that body. -/
theorem expression_covers_its_span {depth : Nat} {c e : Cursor} {v : Node} (h : Rule.run depth .expr c = .hit e v) :
    e.isDone ∨ ∃ k span, c ≤ k ∧ v.LastBody (noiseStop c) k span ∧ k.Body span e ∧ k.Outdents e := by
  cases depth with
  | zero => cases h
  | succ depth =>
    refine (Grammar.expr_covers (fun _ _ _ hnested => Rule.ifThenElse_covers hnested) h).imp_right ?_
    rintro ⟨k, span, hlast, hbody, hout⟩
    exact ⟨k, span, le_trans (le_noiseStop c) hlast.le, hlast, hbody, hout⟩

/-- The last line of this text is indented less than the only arm of the case, so it is no arm and the case stops before
it. -/
theorem expression_covers_its_span_case :
    Rule.run 3 .expr (.start "case x of\n A ->\nb".toList) =
        .hit ⟨"case x of\n A ->\n".toList.reverse, ['b']⟩ (.caseOf ['x'] [⟨['A'], .unparsed []⟩]) ∧
      ∃ k span, Cursor.start "case x of\n A ->\nb".toList ≤ k ∧
        Node.LastBody (.caseOf ['x'] [⟨['A'], .unparsed []⟩]) (noiseStop (.start "case x of\n A ->\nb".toList)) k span ∧
        k.Body span ⟨"case x of\n A ->\n".toList.reverse, ['b']⟩ ∧
        k.Outdents ⟨"case x of\n A ->\n".toList.reverse, ['b']⟩ := by
  have hrun : Rule.run 3 .expr (.start "case x of\n A ->\nb".toList) =
      .hit ⟨"case x of\n A ->\n".toList.reverse, ['b']⟩ (.caseOf ['x'] [⟨['A'], .unparsed []⟩]) := by decide +kernel
  exact ⟨hrun, (expression_covers_its_span hrun).resolve_left (by decide)⟩

/-- So the text after an expression need not be blank. -/
theorem expression_leaves_outdented_line :
    ¬∀ (t : Text) (e : Cursor) (v : Node), Parser.parse Grammar.expr (.start t) = .hit e v → e.rest.all isBlank := by
  intro h
  have hrun : Parser.parse Grammar.expr (.start "case x of\n A ->\nb".toList) =
      .hit ⟨"case x of\n A ->\n".toList.reverse, ['b']⟩ (.caseOf ['x'] [⟨['A'], .unparsed []⟩]) := by decide +kernel
  exact absurd (h _ _ _ hrun) (by decide)

end Offside
