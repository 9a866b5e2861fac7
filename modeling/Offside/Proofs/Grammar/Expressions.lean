import Offside.Proofs.Grammar.Leaves
import Offside.Proofs.Layout.Bodies

/-!
# Expressions

What the rules for expressions ensure, provided that the runs nested in them do: the node is well-formed at every depth.
An expression is asked for on a text of its own, which is shorter than the text of whoever asks; only `else`, and a
`let` whose definitions are commented out on the only line of the text, ask for an expression on the same text again.
The only fault is that of a `let` without definitions.
-/

namespace Offside

open Cursor

/-! ## Faults and nested runs -/

/-- The fault of a text that commits to local definitions and does not have them. -/
def LetFault (t : Text) (fault : Fault) : Prop :=
  (∃ offset found, fault = .expected "let bindings" offset found) ∧ "let".toList <:+: t

/-- The halts that a run over a part of a text may come to. -/
def LetHalt (t : Text) (why : Halt) : Prop :=
  why = .tooDeep ∨ ∃ fault, why = .fault fault ∧ LetFault t fault

/-- A fault of a part of a text is a fault of the text. -/
theorem LetHalt.of_part {t u : Text} {why : Halt} (hpart : u <:+: t) (h : LetHalt u why) : LetHalt t why := by
  rcases h with h | ⟨fault, h, hexpected, hlet⟩
  · exact Or.inl h
  · exact Or.inr ⟨fault, h, hexpected, hlet.trans hpart⟩

namespace Effects

/-- What a rule on a text may do: where there is no `else`, it asks for expressions only, on shorter texts, and on the
same text only under a condition. -/
def within (t : Text) (again : Prop) : Effects where
  halt := LetHalt t
  asks r d := "else".toList <:+: t ∨ r = .expr ∧ ∃ u, d = .start u ∧ (u.length < t.length ∨ u = t ∧ again)

variable {t u : Text} {again again' : Prop}

theorem asks_within_of_length_lt (h : u.length < t.length) : (within t again).asks .expr (.start u) :=
  Or.inr ⟨rfl, u, rfl, Or.inl h⟩

/-- What a rule may do on a part of a text may be done by whoever runs it there. -/
theorem within_le (hpart : u <:+: t) (hagain : u = t → again → again') : within u again ≤ within t again' := by
  refine ⟨fun why hwhy => hwhy.of_part hpart, ?_⟩
  rintro r d (helse | ⟨hr, v, hd, hv⟩)
  · exact Or.inl (helse.trans hpart)
  have hle := hpart.length_le
  refine Or.inr ⟨hr, v, hd, ?_⟩
  rcases hv with hlt | ⟨rfl, h⟩
  · exact Or.inl (Nat.lt_of_lt_of_le hlt hle)
  rcases Nat.lt_or_ge v.length t.length with hlt | hge
  · exact Or.inl hlt
  · have heq : v = t := hpart.eq_of_length (Nat.le_antisymm hle hge)
    exact Or.inr ⟨heq, hagain heq h⟩

end Effects

/-- The nested runs that rules for expressions may rely on. -/
structure Good (call : Rule → Cursor → Outcome Node) : Prop where
  /-- Matches stop no earlier than they begin. -/
  forward : Forward call
  /-- An expression is well-formed. -/
  hits : ∀ r c d v, r = .expr ∨ r = .ifThenElse → call r c = .hit d v → v.IsExpression
  /-- Everything is an expression. -/
  misses : ∀ c, call .expr c ≠ .miss
  /-- Local definitions may be missing. -/
  halts : ∀ r c why, r = .expr ∨ r = .ifThenElse → call r c = .halt why → LetHalt c.text why

/-! ## Definitions that are commented out -/

/-- The cursor is at a `let` on the only line of its text, which ends in an equals sign, and the definitions that should
follow are commented out. -/
structure CommentedLet (c : Cursor) : Prop where
  /-- There is no other line. -/
  oneLine : '\n' ∉ c.text
  /-- Local definitions are announced. -/
  opens : c.matchesWord "let".toList
  /-- A comment follows. -/
  comment : "--".toList.isPrefixOf (c.advance "let".toList.length).restOfLine.trim
  /-- The line could be the head of a definition. -/
  ends : EndsIn "=".toList c.text

/-- With nothing but blanks after it, `let` is no equals sign. -/
theorem CommentedLet.of_bareLine {c : Cursor} (hnl : '\n' ∉ c.text) (hlet : c.matchesWord "let".toList)
    (hbare : Test.bareLine.holds (c.advance "let".toList.length) = true) (hends : EndsIn "=".toList c.text) :
    CommentedLet c := by
  refine ⟨hnl, hlet, ?_, hends⟩
  rw [Test.holds, Bool.or_eq_true] at hbare
  refine hbare.resolve_left fun hempty => ?_
  obtain ⟨rest, hrest, -⟩ := rest_of_matchesWord hlet
  have hadvance : (c.advance "let".toList.length).rest = rest := by
    rw [advance, hrest]
    exact List.drop_left
  have hline : (c.advance "let".toList.length).restOfLine = rest := by
    rw [restOfLine, Text.firstLine, hadvance, List.takeWhile_eq_self_iff]
    intro ch hch
    have hmem : ch ∈ c.text := by simp [text, hrest, hch]
    simp only [bne_iff_ne]
    rintro rfl
    exact hnl hmem
  have hblank := Text.all_isBlank_of_trim_isEmpty hempty
  rw [hline] at hblank
  obtain ⟨before, hbefore, -⟩ := hends
  have hlettrim : Text.trimEnd "let".toList = "let".toList := by decide
  have htrim : c.text.trimEnd = c.past.reverse ++ "let".toList := by
    rw [text, hrest, ← List.append_assoc, Text.trimEnd_append_of_all hblank,
      Text.trimEnd_append (by rw [hlettrim]; decide), hlettrim]
  have hlast := congrArg List.getLast? (htrim.symm.trans hbefore)
  simp at hlast

/-! ## Bodies of keywords -/

namespace Parser

variable {call : Rule → Cursor → Outcome Node} {α : Type} {content : Parser α} {c : Cursor} {hit : Cursor → α → Prop}
  {miss : Prop} {effects : Effects}

/-- The body that belongs to a keyword is a text of its own, up to where a later line opens or to the end. It is all of
the cursor's text only if that is one line, with nothing but a comment after the keyword. -/
theorem subBlock_ensures (hcall : Forward call) {word : String}
    (h : ∀ e stop t, e = c.skipWhile isBlank → e.matchesWord word.toList → e < stop → stop.isDone ∨ e.Below stop →
      t <:+: c.text →
      t.length < c.text.length ∨
        t = c.text ∧ '\n' ∉ c.text ∧ Test.bareLine.holds (e.advance word.toList.length) = true →
      content.Ensures call (.start t) (fun _ v => hit stop v) miss effects)
    (hmiss : miss) : (subBlock word content).Ensures call c hit miss effects := by
  refine .named <| .andThen hcall <| .andThen hcall <| .spaceOptional fun _ => ?_
  refine .keyword (fun hm hle => ?_) fun _ => hmiss
  obtain ⟨e, he⟩ : ∃ e, e = c.skipWhile isBlank := ⟨_, rfl⟩
  obtain ⟨k, hk⟩ : ∃ k, k = e.advance word.toList.length := ⟨_, rfl⟩
  rw [← he] at hm hle ⊢
  rw [← hk] at hle ⊢
  have hek : e < k := hk ▸ lt_of_matchesWord hm
  have htext : k.text = c.text := text_eq_of_le hle
  refine .choose (fun hbare => ?_) fun hbare => ?_
  · -- The body starts on the next line, which need not be there.
    refine .andThen hcall <| .andThen hcall <| .line fun _ => .spaceOptional fun _ => ?_
    refine .indented (nextLine_fresh k) fun stop t hstop hpos ht => ?_
    obtain ⟨hpart, hlen⟩ := text_of_block (le_nextLine k) (nextLine_isDone_or_below k) hstop ht
    rw [htext] at hpart hlen
    have hen : e ≤ k.nextLine := le_trans hek.le (le_nextLine k)
    refine h e stop t he hm (lt_of_lt_of_le hek (le_trans (le_nextLine k) hstop)) (hpos.imp id (Below.of_le hen)) hpart ?_
    exact hlen.imp id fun ⟨heq, hnl, _⟩ => ⟨heq, hnl, hk ▸ hbare⟩
  · refine .twoPass hcall <| .restOfBlock (visible_of_not_bareLine hbare) fun stop hstop hpos _ t ht => ?_
    refine h e stop t he hm (lt_of_lt_of_le hek hstop) (hpos.imp id (Below.of_le hek.le)) ?_ (Or.inl ?_)
    · exact htext ▸ infix_text_of_rest_eq ht
    · have hkt := congrArg List.length ht
      have hke := (lt_iff.mp hek).2
      have het : e.rest.length ≤ c.text.length := by
        rw [he, ← text_skipWhile c isBlank]
        simp [text]
      rw [List.length_append] at hkt
      omega

end Parser

namespace Grammar

open Offside.Parser

variable {call : Rule → Cursor → Outcome Node} (hgood : Good call) {c : Cursor} {t u : Text} {again : Prop}

include hgood

/-- An expression on a part of a text that may be asked for always matches, if it does not halt. -/
theorem nestedExpr_ensures (hpart : u <:+: t) (hasks : (Effects.within t again).asks .expr (.start u)) :
    nestedExpr.Ensures call (.start u) (fun _ v => v.IsExpression) False (.within t again) := by
  refine .ofRule (fun d v hd => hgood.hits .expr _ d v (Or.inl rfl) hd) (hgood.misses _) (fun why hwhy => ?_) hasks
  exact (hgood.halts .expr _ why (Or.inl rfl) hwhy).of_part hpart

/-! ## Definitions -/

/-- A definition gets ahead, and there is one wherever there is its head. Its body is the text itself only if that is one
line, which the head takes up. -/
theorem binding_ensures (c : Cursor) :
    binding.Ensures call c
      (fun d v => c < d ∧ ∃ b : Binding, (b.head.WellFormed ∧ b.body.IsExpression) ∧ v = .binding b)
      (head.runWith call c = .miss) (.within c.text ('\n' ∉ c.text ∧ EndsIn "=".toList c.text)) := by
  have hcall := hgood.forward
  refine .named <| .assemble <| .sequence <| .gather_cons hcall <| .of_miss <| (head_ensures hcall c).imp
    (fun d v hd _ => ?_) (fun _ hmiss => hmiss) (Effects.none_le _)
  obtain ⟨⟨h, ⟨hhead, -⟩, rfl⟩, rfl, hlt, hends, -⟩ := hd
  refine .gather_cons hcall <| .skip <| .spaceOptional fun _ => ?_
  have hnext : c.nextLine.skipWhile isBlank = c.nextLine := skipWhile_skipWhile _ _
  rw [hnext]
  refine .gather_cons hcall <| .indented (nextLine_fresh c) fun stop t hstop hpos ht => ?_
  obtain ⟨hpart, hlen⟩ := text_of_block (le_nextLine c) (nextLine_isDone_or_below c) hstop ht
  have hasks : (Effects.within c.text ('\n' ∉ c.text ∧ EndsIn "=".toList c.text)).asks .expr (.start t) :=
    Or.inr ⟨rfl, t, rfl, hlen.imp id fun ⟨heq, hnl, hdone⟩ => ⟨heq, hnl, hends hdone⟩⟩
  refine (nestedExpr_ensures hgood hpart hasks).imp (fun _ body hbody _ => ?_) False.elim (Effects.le_refl _)
  refine .gather_cons hcall <| .skip <| .spaceOptional fun _ => ?_
  have hshape : Form.binding.assemble (Node.collapse [.head h, .ignore, body, .ignore]) = .ok (.binding ⟨h, body⟩) := by
    simp only [Node.collapse, List.filter, hbody.isIgnore]
    rfl
  have hend := lt_of_lt_of_le hlt (le_trans hstop (le_skipWhile stop isBlank))
  exact .gather_nil ⟨_, hshape, hend, ⟨h, body⟩, ⟨hhead, hbody⟩, rfl⟩

/-! ## Local definitions -/

/-- A definition after noise gets ahead. There is none only where no line past the noise has the looks of its head. -/
theorem noise_binding_ensures (c : Cursor) :
    (sequence [skip skipNoise, binding]).Ensures call c
      (fun d v => c < d ∧ ∃ b : Binding, (b.head.WellFormed ∧ b.body.IsExpression) ∧ v = .binding b)
      (¬HeadLine (noiseStop c)) (.within c.text ('\n' ∉ c.text ∧ EndsIn "=".toList c.text)) := by
  have hcall := hgood.forward
  refine .sequence <| .gather_cons hcall <| .skip <| skipNoise_ensures_of_noiseStop hcall c fun hle => ?_
  have hbinding := binding_ensures hgood (noiseStop c)
  rw [text_noiseStop] at hbinding
  refine .gather_cons hcall <| hbinding.imp (fun d v hv _ => .gather_nil ?_) (head_ensures hcall _).misses
    (Effects.le_refl _)
  obtain ⟨hlt, b, hb, rfl⟩ := hv
  exact ⟨lt_of_le_of_lt hle hlt, b, hb, rfl⟩

/-- The definitions after `let` are there, or else that is the fault. -/
theorem letBindings_ensures (hpart : u <:+: t) (hlet : "let".toList <:+: t)
    (hagain : u = t → '\n' ∉ t → EndsIn "=".toList t → again) :
    (expect "let bindings" (oneOrMore (sequence [skip skipNoise, binding]))).Ensures call (.start u)
      (fun _ v => ∃ bs : List Binding, bs ≠ [] ∧ (∀ b ∈ bs, b.head.WellFormed ∧ b.body.IsExpression) ∧
        v = .list (bs.map .binding)) False (.within t again) := by
  have hmissing : ∀ offset found, LetHalt t (.fault (.expected "let bindings" offset found)) := fun offset found =>
    Or.inr ⟨_, rfl, ⟨offset, found, rfl⟩, hlet⟩
  refine .expect <| .map <| .many1 hgood.forward (fun _ => True)
    (fun v => ∃ b : Binding, (b.head.WellFormed ∧ b.body.IsExpression) ∧ v = .binding b) trivial (fun d hd _ => ?_)
    (fun _ vs _ _ hvs hne => ?_) (hmissing _ _)
  · have hbinding := noise_binding_ensures hgood d
    rw [text_eq_of_le hd, text_start] at hbinding
    refine hbinding.imp (fun _ _ hv _ => ⟨trivial, hv.2⟩) (fun _ => trivial) (Effects.within_le hpart ?_)
    rintro rfl ⟨hnl, hends⟩
    exact hagain rfl hnl hends
  · obtain ⟨bs, hbs, rfl⟩ := exists_forall_eq_map hvs
    exact ⟨bs, by simpa using hne, hbs, Node.listOf_map (fun _ => rfl) bs⟩

/-- Local definitions ask for expressions on shorter texts, but for those that are commented out. -/
theorem letIn_ensures (c : Cursor) :
    letIn.Ensures call c (fun _ v => v.IsExpression) True (.within c.text (CommentedLet (c.skipWhile isBlank))) := by
  have hcall := hgood.forward
  refine .named <| .assemble <| .sequence <| .gather_cons hcall <| subBlock_ensures hcall ?_ trivial
  rintro e stop t rfl hlet hlt hpos hpart hlen
  have hstop : c ≤ stop := le_trans (le_skipWhile c isBlank) hlt.le
  have hmem : "let".toList <:+: c.text := by
    obtain ⟨rest, hrest, -⟩ := rest_of_matchesWord hlet
    rw [← text_skipWhile c isBlank]
    exact infix_text_of_rest_eq hrest
  refine (letBindings_ensures hgood hpart hmem fun heq hnl hends => ?_).imp (fun _ v hv _ => ?_) False.elim
    (Effects.le_refl _)
  · rcases hlen with hlen | ⟨-, -, hbare⟩
    · exact absurd (congrArg List.length heq) (Nat.ne_of_lt hlen)
    · exact .of_bareLine (by simpa using hnl) hlet hbare (by simpa using hends)
  obtain ⟨bs, hne, hbs, rfl⟩ := hv
  refine .gather_cons hcall <| subBlock_ensures hcall ?_ trivial
  rintro e' stop' t' rfl hin _ _ hpart' hlen'
  rw [text_eq_of_le hstop] at hpart' hlen'
  have hshorter : t'.length < c.text.length := by
    refine hlen'.resolve_right fun ⟨_, hnl, _⟩ => ?_
    -- Without another line the definitions take up all that is left, so no keyword follows.
    have hdone : stop.isDone := hpos.resolve_right fun hbelow => hnl (text_eq_of_le hstop ▸ hbelow.newline_mem hlt.le)
    obtain ⟨rest, hrest, hne⟩ := rest_of_matchesWord hin
    have hnil : stop.rest = [] := isDone_iff.mp hdone
    simp [skipWhile, hnil] at hrest
  refine (nestedExpr_ensures hgood hpart' (Effects.asks_within_of_length_lt hshorter)).imp (fun _ body hbody _ => ?_)
    False.elim (Effects.le_refl _)
  have hshape : Form.letIn.assemble (Node.collapse [.list (bs.map .binding), body]) = .ok (.letIn bs body) := by
    simp only [Node.collapse, List.filter, hbody.isIgnore]
    exact Form.assemble_letIn bs body
  exact .gather_nil ⟨_, hshape, .letIn hne (fun b hb => (hbs b hb).1) (fun b hb => (hbs b hb).2) hbody⟩

/-! ## Conditions -/

/-- What follows a condition and its first branch begins with `else`. -/
theorem elseBranch_ensures (c : Cursor) :
    (oneOf [sequence [skip spaceOptional, skip (keyword "else"), skip spaceRequired, ofRule "If" .ifThenElse],
      subBlock "else" nestedExpr]).Ensures call c (fun _ v => v.IsExpression) True (.within c.text False) := by
  have hcall := hgood.forward
  have helse : (c.skipWhile isBlank).matchesWord "else".toList → "else".toList <:+: c.text := by
    intro hm
    obtain ⟨rest, hrest, -⟩ := rest_of_matchesWord hm
    rw [← text_skipWhile c isBlank]
    exact infix_text_of_rest_eq hrest
  have hblock : (firstOf [subBlock "else" nestedExpr]).Ensures call c (fun _ v => v.IsExpression) True
      (.within c.text False) := by
    refine .firstOf_cons <| subBlock_ensures hcall ?_ (.firstOf_nil trivial)
    rintro e stop t rfl hm _ _ hpart _
    exact (nestedExpr_ensures hgood hpart (Or.inl (helse hm))).imp (fun _ _ hv => hv) False.elim (Effects.le_refl _)
  refine .oneOf <| .firstOf_cons <| .sequence <| .gather_cons hcall <| .skip <| .spaceOptional fun hle => ?_
  refine .gather_cons hcall <| .skip <| .keyword (fun hm hle' => ?_) fun _ => hblock
  refine .gather_cons hcall <| .skip <| .spaceRequired (fun _ hle'' => ?_) fun _ => hblock
  have htext := text_eq_of_le (le_trans hle (le_trans hle' hle''))
  refine .gather_cons hcall <| .ofRule (fun d v hd _ => .gather_nil ?_)
    (fun _ => hblock)
    (fun why hwhy => ?_) (Or.inl (helse hm))
  · have hv := hgood.hits .ifThenElse _ d v (Or.inr rfl) hd
    simp only [Node.collapse, List.filter, hv.isIgnore]
    exact hv
  · rw [← htext]
    exact hgood.halts .ifThenElse _ why (Or.inr rfl) hwhy

/-- A condition asks for expressions on shorter texts, but for its `else`. -/
theorem ifThenElse_ensures (c : Cursor) :
    ifThenElse.Ensures call c (fun _ v => v.IsExpression) True (.within c.text False) := by
  have hcall := hgood.forward
  refine .named <| .assemble <| .sequence <| .gather_cons hcall <| .skip <| .keyword (fun hm _ => ?_) fun _ => trivial
  have hif := lt_of_matchesWord hm
  refine .gather_cons hcall <| .skip <| .spaceRequired (fun _ hle => ?_) fun _ => trivial
  have hck := lt_of_lt_of_le hif hle
  have hshorter : ∀ (d stop : Cursor) (t : Text), c < d → d.rest = t ++ stop.rest →
      t <:+: c.text ∧ (Effects.within c.text False).asks .expr (.start t) := by
    intro d stop t hcd ht
    refine ⟨text_eq_of_le hcd.le ▸ infix_text_of_rest_eq ht, Effects.asks_within_of_length_lt ?_⟩
    have h1 := congrArg List.length ht
    have h2 := (lt_iff.mp hcd).2
    have h3 : c.rest.length ≤ c.text.length := by simp [text]
    rw [List.length_append] at h1
    omega
  refine .gather_cons hcall <| .twoPass hcall <| .scan (fun n _ _ t ht => ?_) fun _ => trivial
  obtain ⟨hpart, hasks⟩ := hshorter _ _ _ hck ht
  refine (nestedExpr_ensures hgood hpart hasks).imp (fun _ condition hcondition hle₁ => ?_) False.elim (Effects.le_refl _)
  refine .gather_cons hcall <| .skip <| .keyword (fun _ hle₂ => ?_) fun _ => trivial
  have hcthen := lt_of_lt_of_le hck (le_trans hle₁ hle₂)
  refine .gather_cons hcall <| .twoPass hcall <| .scan (fun n' _ _ t' ht' => ?_) fun _ => trivial
  obtain ⟨hpart', hasks'⟩ := hshorter _ _ _ hcthen ht'
  refine (nestedExpr_ensures hgood hpart' hasks').imp (fun _ yes hyes hle₃ => ?_) False.elim (Effects.le_refl _)
  have hbranch := elseBranch_ensures hgood
    (((((c.advance "if".toList.length).skipWhile isBlank).advance n).advance "then".toList.length).advance n')
  rw [text_eq_of_le (lt_of_lt_of_le hcthen hle₃).le] at hbranch
  refine .gather_cons hcall <| hbranch.imp (fun _ no hno _ => ?_) id (Effects.le_refl _)
  have hshape : Form.ifThenElse.assemble (Node.collapse [.ignore, .ignore, condition, .ignore, yes, no]) =
      .ok (.ifThenElse condition yes no) := by
    simp only [Node.collapse, List.filter, hcondition.isIgnore, hyes.isIgnore, hno.isIgnore]
    rfl
  exact .gather_nil ⟨_, hshape, .ifThenElse hcondition hyes hno⟩

/-! ## Cases -/

/-- An arm gets ahead. There is none only where the line past the noise does not end in an arrow. Its body is the text
itself only if its arrow ends the text. -/
theorem arm_ensures (c : Cursor) :
    arm.Ensures call c (fun d v => c < d ∧ ∃ a : Arm, (a.pattern.Phrase ∧ a.body.IsExpression) ∧ v = .arm a)
      (¬EndsIn "->".toList (noiseStop c).restOfLine) (.within c.text ("->".toList <:+ c.text.trimEnd)) := by
  have hcall := hgood.forward
  refine .named <| .assemble <| .sequence <| .gather_cons hcall <| .skip <|
    skipNoise_ensures_of_noiseStop hcall c fun hnoise => ?_
  obtain ⟨e, he⟩ : ∃ e, e = noiseStop c := ⟨_, rfl⟩
  have htext : e.text = c.text := by rw [he, text_noiseStop]
  rw [← he] at hnoise ⊢
  refine .gather_cons hcall <| (pattern_ensures hcall e).imp (fun d v hv _ => ?_) id (Effects.none_le _)
  obtain ⟨⟨p, hp, rfl⟩, rfl, hline, hends, -⟩ := hv
  refine .gather_cons hcall <| .skip <| .spaceOptional fun _ => ?_
  refine .gather_cons hcall <| .indented (nextLine_fresh e) fun stop t hstop _ ht => ?_
  obtain ⟨hpart, hlen⟩ := text_of_block (le_nextLine e) (nextLine_isDone_or_below e) hstop ht
  rw [htext] at hpart hlen hends
  have hasks : (Effects.within c.text ("->".toList <:+ c.text.trimEnd)).asks .expr (.start t) :=
    Or.inr ⟨rfl, t, rfl, hlen.imp id fun ⟨heq, _, hdone⟩ => ⟨heq, hends hdone⟩⟩
  refine (nestedExpr_ensures hgood hpart hasks).imp (fun _ body hbody _ => ?_) False.elim (Effects.le_refl _)
  have hshape : Form.arm.assemble (Node.collapse [.ignore, .pattern p, .ignore, body]) = .ok (.arm ⟨p, body⟩) := by
    simp only [Node.collapse, List.filter, hbody.isIgnore]
    rfl
  have hend := lt_of_le_of_lt hnoise (lt_of_lt_of_le hline hstop)
  exact .gather_nil ⟨_, hshape, hend, ⟨p, body⟩, ⟨hp, hbody⟩, rfl⟩

/-- The arms are a shorter text: a text that ends in `of` does not end in an arrow. -/
theorem caseOf_ensures (c : Cursor) :
    caseOf.Ensures call c (fun _ v => v.IsExpression) True (.within c.text False) := by
  have hcall := hgood.forward
  refine .named <| .assemble <| .sequence <| .gather_cons hcall <| (caseHead_ensures hcall c).imp (fun d v hv _ => ?_) id
    (Effects.none_le _)
  obtain ⟨⟨subject, hsubject, rfl⟩, -, rfl, hends⟩ := hv
  refine .gather_cons hcall <| .skip <| .spaceOptional fun _ => ?_
  refine .gather_cons hcall <| .indented (nextLine_fresh c) fun stop t hstop _ ht => ?_
  obtain ⟨hpart, hlen⟩ := text_of_block (le_nextLine c) (nextLine_isDone_or_below c) hstop ht
  have hend : t = c.text → ¬"->".toList <:+ t.trimEnd := by
    rintro heq harrow
    rcases hlen with hlt | ⟨-, -, hdone⟩
    · exact absurd (congrArg List.length heq) (Nat.ne_of_lt hlt)
    · have hof := hends hdone
      rw [← heq] at hof
      have hsame := (List.suffix_of_suffix_length_le hof harrow (by decide)).eq_of_length (by decide)
      exact absurd hsame (by decide)
  refine .map <| .many1 hcall (fun _ => True)
    (fun v => ∃ a : Arm, (a.pattern.Phrase ∧ a.body.IsExpression) ∧ v = .arm a) trivial (fun d hd _ => ?_)
    (fun _ vs _ _ hvs hne _ => ?_) trivial
  · have harm := arm_ensures hgood d
    rw [text_eq_of_le hd, text_start] at harm
    exact harm.imp (fun _ _ hv _ => ⟨trivial, hv.2⟩) (fun _ => trivial) (Effects.within_le hpart hend)
  · obtain ⟨arms, harms, rfl⟩ := exists_forall_eq_map hvs
    have hshape : Form.caseOf.assemble (Node.collapse [.caseHead subject, .ignore, Node.listOf (arms.map .arm)]) =
        .ok (.caseOf subject arms) := by
      rw [Node.listOf_map fun _ => rfl]
      exact Form.assemble_caseOf subject arms
    refine .gather_nil ⟨_, hshape, .caseOf hsubject ?_ (fun a ha => (harms a ha).1) fun a ha => (harms a ha).2⟩
    simpa using hne

/-! ## Expressions -/

/-- Every text is an expression, unless it commits to local definitions that are not there. -/
theorem expr_ensures (c : Cursor) :
    expr.Ensures call c (fun _ v => v.IsExpression) False (.within c.text (CommentedLet (noiseStop c))) := by
  have hcall := hgood.forward
  refine .named <| .sequence <| .gather_cons hcall <| .skip <| skipNoise_ensures_of_noiseStop hcall c fun _ => ?_
  obtain ⟨e, he⟩ : ∃ e, e = noiseStop c := ⟨_, rfl⟩
  have hself : e.skipWhile isBlank = e := he ▸ skipWhile_eq_self (next?_noiseStop c)
  have htext : e.text = c.text := by rw [he, text_noiseStop]
  rw [← he]
  have hend : ∀ d (v : Node), v.IsExpression → e ≤ d → (gather ([] : List (Parser Node))).Ensures call d
      (fun _ vs => (Node.collapse (.ignore :: v :: vs)).IsExpression) False (.within c.text (CommentedLet e)) := by
    intro d v hv _
    refine .gather_nil ?_
    simp only [Node.collapse, List.filter, hv.isIgnore]
    exact hv
  have hendWhole : ∀ d (v : Node), v.IsExpression ∧ d.isDone → e ≤ d → (gather ([] : List (Parser Node))).Ensures call d
      (fun _ vs => (Node.collapse (.ignore :: v :: vs)).IsExpression) False (.within c.text (CommentedLet e)) :=
    fun d v hv => hend d v hv.1
  have hwithin : ∀ {again : Prop}, (again → CommentedLet e) →
      Effects.within e.text again ≤ .within c.text (CommentedLet e) := fun h =>
    Effects.within_le (htext ▸ List.infix_rfl) fun _ => h
  refine .gather_cons hcall <| .oneOf <| .firstOf_cons <| (letIn_ensures hgood e).imp hend (fun _ => ?_)
    (hwithin fun h => hself ▸ h)
  refine .firstOf_cons <| (ifThenElse_ensures hgood e).imp hend (fun _ => ?_) (hwithin False.elim)
  refine .firstOf_cons <| (caseOf_ensures hgood e).imp hend (fun _ => ?_) (hwithin False.elim)
  refine .firstOf_cons <| (tuple_ensures hcall e).imp (fun d v hv => hendWhole d v ?_) (fun _ => ?_) (Effects.none_le _)
  · obtain ⟨⟨t, ⟨htrimmed, -⟩, rfl⟩, hdone⟩ := hv
    exact ⟨.tuple htrimmed, hdone⟩
  refine .firstOf_cons <| (call_ensures hcall e).imp hendWhole (fun _ => ?_) (Effects.none_le _)
  exact .firstOf_cons <| (unparsed_ensures hcall e).imp hendWhole False.elim (Effects.none_le _)

end Grammar

end Offside
