import Offside.Document
import Offside.Proofs.Grammar.Expressions

/-!
# Items of a document

What the items at the top level ensure, and what follows for rules that are run at any depth: `Rule.good` says that
expressions keep their promises when the runs nested in them do, so they always do.
-/

namespace Offside

open Cursor

namespace Grammar

open Offside.Parser

variable {call : Rule → Cursor → Outcome Node}

/-- An item gets ahead, and is well-formed unless it has no meaning; there is none only where no blank comes next. -/
theorem topLevelItem_ensures (hgood : Good call) (c : Cursor) :
    topLevelItem.Ensures call c (fun d v => c < d ∧ (v = .ignore ∨ v.IsItem)) (c.next?.all (!isBlank ·))
      (.within c.text ('\n' ∉ c.text ∧ EndsIn "=".toList c.text)) := by
  have hcall := hgood.forward
  have hskip : ∀ d (_ : Unit), c < d → c < d ∧ (Node.ignore = .ignore ∨ Node.ignore.IsItem) := fun _ _ hlt =>
    ⟨hlt, Or.inl rfl⟩
  have hitem : ∀ d (v : Node), c < d ∧ v.IsItem → c < d ∧ (v = .ignore ∨ v.IsItem) := fun _ _ hv => hv.imp_right Or.inr
  refine .named <| .oneOf <| .firstOf_cons <| .skip <| .oneOf <| .firstOf_cons <| .spaceRequired (hskip _ ())
    fun hnext => ?_
  refine .firstOf_cons <| (comment_ensures hcall c).imp hskip (fun _ => .firstOf_nil ?_) (Effects.none_le _)
  refine .firstOf_cons <| (moduleDecl_ensures hcall c).imp (fun d v hv => hitem d v ?_) (fun _ => ?_) (Effects.none_le _)
  · obtain ⟨hlt, name, exposing, ⟨-, hne, -⟩, rfl⟩ := hv
    exact ⟨hlt, .moduleDecl hne⟩
  refine .firstOf_cons <| .skip <| (keywordBlock_ensures hcall c (by decide)).imp (fun d v hv => hskip d v hv.1)
    (fun _ => ?_) (Effects.none_le _)
  refine .firstOf_cons <| (importDecl_ensures hcall c).imp (fun d v hv => hitem d v hv.1) (fun _ => ?_) (Effects.none_le _)
  refine .firstOf_cons <| (signature_ensures hcall c).imp (fun d v hv => hitem d v hv.1) (fun _ => ?_) (Effects.none_le _)
  refine .firstOf_cons <| (typeDecl_ensures hcall c).imp (fun d v hv => hitem d v hv.1) (fun _ => ?_) (Effects.none_le _)
  refine .firstOf_cons <| (binding_ensures hgood c).imp (fun d v hv => hitem d v ?_) (fun _ => ?_) (Effects.le_refl _)
  · obtain ⟨hlt, b, ⟨hhead, hbody⟩, rfl⟩ := hv
    exact ⟨hlt, .binding hhead hbody⟩
  · exact .firstOf_nil hnext

/-- Where no blank comes next, what no rule understands can be passed, and passing it gets ahead. It is kept as it is, but
for the blanks around it. -/
theorem statement_ensures (hcall : Forward call) {c : Cursor} (hnext : c.next?.all (!isBlank ·)) :
    statement.Ensures call c
      (fun d v => (c.isDone = false → c < d) ∧ ∃ t : Text, t.Trimmed ∧ v = .unparsed t) False .none := by
  have hvisible : c.isDone = false → c.next?.any (!isBlank ·) := by
    intro hdone
    cases hr : c.rest with
    | nil => simp [isDone, hr] at hdone
    | cons ch rest => simpa [next?, hr] using hnext
  refine .assemble <| .named <| .choose (fun hstart => ?_) fun _ => ?_
  · have hfresh : c.Fresh := by
      cases hdone : c.isDone with
      | true => exact Or.inl hdone
      | false => exact fresh_of_lead hstart (hvisible hdone)
    refine .grab hcall <| .block hfresh fun stop _ hle hpos _ t _ =>
      ⟨_, rfl, fun hdone => ?_, _, Text.trimmed_trim t, rfl⟩
    exact lt_of_isDone_or_below hle (hvisible hdone) hpos
  · refine .grab hcall <| .line fun _ t _ => ⟨_, rfl, fun hdone => ?_, _, Text.trimmed_trim t, rfl⟩
    refine lt_iff.mpr ⟨le_skipWhile c _, ?_⟩
    cases hr : c.rest with
    | nil => simp [isDone, hr] at hdone
    | cons ch rest =>
      have hch : isBlank ch = false := by simpa [next?, hr] using hvisible hdone
      exact hr ▸ length_rest_skipWhile_lt hr (ne_newline_of_not_isBlank hch)

end Grammar

/-! ## Rules at any depth -/

open Grammar

/-- A rule other than `statement` may come to a halt for missing local definitions or for being nested too deeply only,
if that is so for the runs nested in it. -/
theorem Rule.halts_body {call : Rule → Cursor → Outcome Node} (hgood : Good call) {r : Rule} (hr : r ≠ .statement)
    {c : Cursor} {why : Halt} (h : r.body.runWith call c = .halt why) : LetHalt c.text why := by
  have hcall := hgood.forward
  cases r with
  | moduleDecl => exact ((moduleDecl_ensures hcall c).halts why h).elim
  | importDecl => exact ((importDecl_ensures hcall c).halts why h).elim
  | signature => exact ((signature_ensures hcall c).halts why h).elim
  | typeDecl => exact ((typeDecl_ensures hcall c).halts why h).elim
  | head => exact ((head_ensures hcall c).halts why h).elim
  | binding => exact (binding_ensures hgood c).halts why h
  | letIn => exact (letIn_ensures hgood c).halts why h
  | ifThenElse => exact (ifThenElse_ensures hgood c).halts why h
  | caseHead => exact ((caseHead_ensures hcall c).halts why h).elim
  | pattern => exact ((pattern_ensures hcall c).halts why h).elim
  | arm => exact (arm_ensures hgood c).halts why h
  | caseOf => exact (caseOf_ensures hgood c).halts why h
  | tuple => exact ((tuple_ensures hcall c).halts why h).elim
  | call => exact ((call_ensures hcall c).halts why h).elim
  | unparsed => exact ((unparsed_ensures hcall c).halts why h).elim
  | expr => exact (expr_ensures hgood c).halts why h
  | topLevelItem => exact (topLevelItem_ensures hgood c).halts why h
  | statement => exact absurd rfl hr

/-- At any depth, expressions keep the promises that they rely on. -/
theorem Rule.good (depth : Nat) : Good (Rule.run depth) := by
  induction depth with
  | zero =>
    refine ⟨Rule.forward 0, ?_, ?_, ?_⟩
    · intro r c d v _ h
      cases h
    · intro c h
      cases h
    · intro r c why _ h
      obtain rfl : .tooDeep = why := by simpa [Rule.run] using h
      exact Or.inl rfl
  | succ depth ih =>
    refine ⟨Rule.forward (depth + 1), ?_, fun c => (expr_ensures ih c).misses, ?_⟩
    · rintro r c d v (rfl | rfl) h
      · exact (expr_ensures ih c).hits d v h
      · exact (ifThenElse_ensures ih c).hits d v h
    · rintro r c why (rfl | rfl) h
      · exact halts_body ih (by decide) h
      · exact halts_body ih (by decide) h

/-! ## Items under options -/

namespace Options

/-- A node that a document may have at its top level: a well-formed item, or with recovery a trimmed text. -/
def Admits (o : Options) (v : Node) : Prop :=
  v.IsItem ∨ o.recover ∧ ∃ t : Text, t.Trimmed ∧ v = .unparsed t

variable {call : Rule → Cursor → Outcome Node} (hgood : Good call) (o : Options)

include hgood

/-- With recovery there always is an item, and before the end of the text it gets ahead. -/
theorem item_ensures (c : Cursor) :
    o.item.Ensures call c (fun d v => (c.isDone = false → c < d) ∧ (v = .ignore ∨ o.Admits v)) (o.recover = false)
      (.within c.text ('\n' ∉ c.text ∧ EndsIn "=".toList c.text)) := by
  have htop := topLevelItem_ensures hgood c
  have hitem : ∀ d (v : Node), c < d ∧ (v = .ignore ∨ v.IsItem) →
      (c.isDone = false → c < d) ∧ (v = .ignore ∨ o.Admits v) := fun _ _ hv =>
    ⟨fun _ => hv.1, hv.2.imp_right Or.inl⟩
  unfold item
  split
  · next hrecover =>
    refine .or <| htop.imp hitem (fun hnext => ?_) (Effects.le_refl _)
    exact (statement_ensures hgood.forward hnext).imp (fun _ _ hv => ⟨hv.1, Or.inr (Or.inr ⟨hrecover, hv.2⟩)⟩)
      False.elim (Effects.none_le _)
  · next hrecover => exact htop.imp hitem (fun _ => by simpa using hrecover) (Effects.le_refl _)

/-- The items of a document may do what each of them may. -/
theorem items_ensures (t : Text) :
    o.items.Ensures call (.start t) (fun d vs => .start t ≤ d ∧ ∀ v ∈ vs, v = .ignore ∨ o.Admits v) False
      (.within t ('\n' ∉ t ∧ EndsIn "=".toList t)) := by
  have hcall := hgood.forward
  have hitem : ∀ d, Cursor.start t ≤ d → o.item.Ensures call d (fun _ v => v = .ignore ∨ o.Admits v) True
      (.within t ('\n' ∉ t ∧ EndsIn "=".toList t)) := by
    intro d hd
    have h := item_ensures hgood o d
    rw [text_eq_of_le hd, text_start] at h
    exact h.imp (fun _ _ hv => hv.2) (fun _ => trivial) (Effects.le_refl _)
  unfold items
  split
  · refine .named <| .many hcall (fun _ => True) (fun v => v = .ignore ∨ o.Admits v) trivial (fun d hd _ => ?_)
      fun _ _ hd _ hvs _ => ⟨hd, hvs⟩
    exact .choose (fun _ => .fail trivial) fun _ => (hitem d hd).imp (fun _ _ hv _ => ⟨trivial, hv⟩) id
      (Effects.le_refl _)
  · refine .many hcall (fun _ => True) (fun v => v = .ignore ∨ o.Admits v) trivial (fun d hd _ => ?_)
      fun _ _ hd _ hvs _ => ⟨hd, hvs⟩
    exact (hitem d hd).imp (fun _ _ hv _ => ⟨trivial, hv⟩) id (Effects.le_refl _)

end Options

end Offside
