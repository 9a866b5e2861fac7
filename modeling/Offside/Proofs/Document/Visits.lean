import Offside.Proofs.Document.Faults

/-!
# What comes up in a parse

The items of a document ask for rules at places, and those for others: `Visits` says which come up in a parse, at any
depth, and `VisitsAt` where in the text (`VisitsAt.exists_text_eq`). What comes up is an expression, or a condition after
`else` (`Visits.eq_expr_or_ifThenElse`): the other rules are part of what asks for these. A fault is raised by the items or
by something that comes up (`raises_of_parseWithin`).
-/

namespace Offside

open Offside.Parser

/-- The rules and places that come up in the parse of a text, at any depth. -/
inductive Visits (o : Options) (t : Text) : Rule → Cursor → Prop where
  /-- An item of the document asks for the rule. -/
  | item {depth : Nat} {r : Rule} {c : Cursor} (asks : o.items.Asks (Rule.run depth) (.start t) r c) : Visits o t r c
  /-- A rule that comes up asks for the rule. -/
  | nested {depth : Nat} {r r' : Rule} {c c' : Cursor} (visited : Visits o t r c)
      (asks : r.body.Asks (Rule.run depth) c r' c') : Visits o t r' c'

/-- The same, with what comes before the part of the text that the rule is run over. -/
inductive VisitsAt (o : Options) (t : Text) : Text → Rule → Cursor → Prop where
  | item {depth : Nat} {before : Text} {r : Rule} {c : Cursor}
      (asks : o.items.AsksAt (Rule.run depth) (.start t) r c before) : VisitsAt o t before r c
  | nested {depth : Nat} {before inner : Text} {r r' : Rule} {c c' : Cursor} (visited : VisitsAt o t before r c)
      (asks : r.body.AsksAt (Rule.run depth) c r' c' inner) : VisitsAt o t (before ++ inner) r' c'

variable {o : Options} {t : Text} {r : Rule} {c : Cursor}

/-- What comes up does so in some part of the text. -/
theorem Visits.exists_at (hv : Visits o t r c) : ∃ before, VisitsAt o t before r c := by
  induction hv with
  | item asks =>
    obtain ⟨before, asks⟩ := asks.exists_at
    exact ⟨before, .item asks⟩
  | nested _ asks ih =>
    obtain ⟨before, visited⟩ := ih
    obtain ⟨inner, asks⟩ := asks.exists_at
    exact ⟨before ++ inner, .nested visited asks⟩

/-- That part is the text of the place. -/
theorem VisitsAt.exists_text_eq {before : Text} (hv : VisitsAt o t before r c) : ∃ after, t = before ++ c.text ++ after := by
  induction hv with
  | item asks => exact asks.exists_text_eq (Rule.forward _)
  | nested _ asks ih =>
    obtain ⟨after, rfl⟩ := ih
    obtain ⟨rest, htext⟩ := asks.exists_text_eq (Rule.forward _)
    exact ⟨rest ++ after, by simp [htext]⟩

/-- What comes up in a parse is part of the text. -/
theorem Visits.infix_text (hv : Visits o t r c) : c.text <:+: t := by
  obtain ⟨before, hat⟩ := hv.exists_at
  obtain ⟨after, htext⟩ := hat.exists_text_eq
  exact ⟨before, after, htext.symm⟩

/-! ## References to rules -/

/-- The rules that a parser refers to. -/
def Parser.references {α : Type} : Parser α → List Rule
  | .scan _ => []
  | .extent _ => []
  | .ret _ => []
  | .fail => []
  | .ofRule _ rule => [rule]
  | .named _ p => p.references
  | .map _ p => p.references
  | .transform _ p => p.references
  | .seq _ p q => p.references ++ q.references
  | .or p q => p.references ++ q.references
  | .choose _ p q => p.references ++ q.references
  | .optional p => p.references
  | .many p => p.references
  | .filter _ p => p.references
  | .lookahead p => p.references
  | .expect _ p => p.references
  | .grab p => p.references
  | .twoPass delimiter content => delimiter.references ++ content.references
  | .indented content => content.references

/-- A run asks for what its parser refers to. -/
theorem Parser.mem_references_of_asks {call : Rule → Cursor → Outcome Node} {α : Type} {p : Parser α} {d : Cursor}
    (h : p.Asks call c r d) : r ∈ p.references := by
  induction p generalizing c with
  | scan s => exact h.elim
  | extent e => exact h.elim
  | ret value => exact h.elim
  | fail => exact h.elim
  | ofRule n rule => exact List.mem_singleton.mpr h.1
  | named n p ih => exact ih h
  | map f p ih => exact ih h
  | transform f p ih => exact ih h
  | seq combine p q ihp ihq =>
    rcases h with h | ⟨_, _, _, h⟩
    · exact List.mem_append_left _ (ihp h)
    · exact List.mem_append_right _ (ihq h)
  | or p q ihp ihq =>
    rcases h with h | ⟨_, h⟩
    · exact List.mem_append_left _ (ihp h)
    · exact List.mem_append_right _ (ihq h)
  | choose test p q ihp ihq =>
    unfold Asks at h
    split at h
    · exact List.mem_append_left _ (ihp h)
    · exact List.mem_append_right _ (ihq h)
  | optional p ih => exact ih h
  | many p ih =>
    obtain ⟨_, _, h⟩ := h
    exact ih h
  | filter keep p ih => exact ih h
  | lookahead p ih => exact ih h
  | expect what p ih => exact ih h
  | grab p ih => exact ih h
  | twoPass delimiter content ihd ihc =>
    rcases h with h | ⟨_, _, _, _, h⟩
    · exact List.mem_append_left _ (ihd h)
    · exact List.mem_append_right _ (ihc h)
  | indented content ih =>
    obtain ⟨_, _, _, _, h⟩ := h
    exact ih h

/-- Rules refer to expressions, and to conditions. -/
theorem Rule.references_body (r : Rule) : ∀ r' ∈ r.body.references, r' = .expr ∨ r' = .ifThenElse := by
  cases r <;> decide

theorem Options.references_items (o : Options) : ∀ r ∈ o.items.references, r = .expr ∨ r = .ifThenElse := by
  have hitem : ∀ r ∈ o.item.references, r = .expr ∨ r = .ifThenElse := by
    unfold item
    split
    · intro r hr
      exact (List.mem_append.mp hr).elim (Rule.references_body .topLevelItem r) (Rule.references_body .statement r)
    · exact Rule.references_body .topLevelItem
  unfold items
  split
  · exact hitem
  · exact hitem

/-- Nothing but expressions and conditions comes up in a parse. -/
theorem Visits.eq_expr_or_ifThenElse (hv : Visits o t r c) : r = .expr ∨ r = .ifThenElse := by
  cases hv with
  | item asks => exact o.references_items r (mem_references_of_asks asks)
  | nested _ asks => exact Rule.references_body _ r (mem_references_of_asks asks)

/-! ## Where a fault is raised -/

/-- A fault that halts something that comes up is raised by something that comes up, and halts that. -/
theorem Visits.exists_raises {depth : Nat} {fault : Fault} (hv : Visits o t r c)
    (h : Rule.run depth r c = .halt (.fault fault)) :
    ∃ inner r' c', Visits o t r' c' ∧ Rule.run (inner + 1) r' c' = .halt (.fault fault) ∧
      r'.body.Raises (Rule.run inner) c' fault := by
  induction depth generalizing r c with
  | zero => cases h
  | succ depth ih =>
    rcases raises_or_asks_of_halt h with ⟨fault', hfault, hraises⟩ | hout | ⟨r', d, hasks, hd⟩
    · obtain rfl : fault = fault' := Halt.fault.inj hfault
      exact ⟨depth, r, c, hv, h, hraises⟩
    · cases hout
    · exact ih (.nested hv hasks) hd

/-- So is a fault of a parse, unless the items raise it, or the parse was asked to reach the end and did not. -/
theorem raises_of_parseWithin {depth : Nat} {fault : Fault} (h : parseWithin depth o t = .error (.fault fault)) :
    o.items.Raises (Rule.run depth) (.start t) fault ∨ (∃ line column window, fault = .incomplete line column window) ∨
      ∃ inner r c, Visits o t r c ∧ Rule.run (inner + 1) r c = .halt (.fault fault) ∧
        r.body.Raises (Rule.run inner) c fault := by
  rcases parseWithin_eq_error h with hhalt | ⟨-, _, _, -, -, line, column, window, hincomplete⟩
  · rcases raises_or_asks_of_halt hhalt with ⟨fault', hfault, hraises⟩ | hout | ⟨r, d, hasks, hd⟩
    · obtain rfl : fault = fault' := Halt.fault.inj hfault
      exact Or.inl hraises
    · cases hout
    · exact Or.inr (Or.inr (Visits.exists_raises (.item hasks) hd))
  · exact Or.inr (Or.inl ⟨line, column, window, Halt.fault.inj hincomplete⟩)

end Offside
