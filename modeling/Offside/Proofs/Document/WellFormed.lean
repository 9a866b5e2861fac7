import Offside.Proofs.Document.Faults

/-!
# The trees of documents are well-formed

The nodes of a document are items, and with recovery texts that no rule understood. Below an item there are expressions
only: what a rule captured on its way to a node is left out or has become part of the node.
-/

namespace Offside

/-- The trees of documents are well-formed. Every node of a document is a module header, an import, a signature, a type
declaration or a definition, or with recovery a text that no rule understood; every expression below it is a `let` with
definitions, a condition, a case with arms, a tuple, a call with tokens or a text that no rule understood. Names are
tokens, parameters and the tokens of calls are tokens or groups in parentheses, subjects, patterns and the heads of types
are in one line, and texts are trimmed. -/
theorem nodes_wellFormed (depth : Nat) (o : Options) (t : Text) (d : Document) (h : parseWithin depth o t = .ok d) :
    ∀ v ∈ d.nodes, v.IsItem ∨ o.recover = true ∧ ∃ u : Text, u.Trimmed ∧ v = .unparsed u := by
  obtain ⟨found, hd, hrun⟩ := exists_run_items_of_parseWithin h
  intro v hv
  have hnodes : d.nodes = found.filter (!·.isIgnore) := by rw [hd]; rfl
  rw [hnodes, List.mem_filter] at hv
  obtain ⟨hmem, hmeaning⟩ := hv
  rcases ((o.items_ensures (Rule.good depth) t).hits d.stop found hrun).2 v hmem with rfl | hadmits
  · cases hmeaning
  · exact hadmits

/-- A definition with local definitions and a case below them, and a line that no rule understands. -/
theorem nodes_wellFormed_case_below_let :
    ∃ d, parseWith (.recovering {}) "f (a b) =\n let\n  g =\n   a\n in\n  case g of\n   x ->\n    (x)\n?".toList = .ok d ∧
      d.nodes =
        [.binding ⟨⟨"f".toList, ["(a b)".toList]⟩,
          .letIn [⟨⟨"g".toList, []⟩, .call ["a".toList]⟩] (.caseOf "g".toList [⟨"x".toList, .tuple "x".toList⟩])⟩,
        .unparsed "?".toList] ∧
      ∀ v ∈ d.nodes, v.IsItem ∨ (Options.recovering {}).recover = true ∧ ∃ u : Text, u.Trimmed ∧ v = .unparsed u := by
  obtain ⟨d, hd⟩ : ∃ d, d = Document.mk
      [.binding ⟨⟨"f".toList, ["(a b)".toList]⟩,
        .letIn [⟨⟨"g".toList, []⟩, .call ["a".toList]⟩] (.caseOf "g".toList [⟨"x".toList, .tuple "x".toList⟩])⟩,
      .unparsed "?".toList]
      ((Cursor.start "f (a b) =\n let\n  g =\n   a\n in\n  case g of\n   x ->\n    (x)\n?".toList).advance 59) := ⟨_, rfl⟩
  have hparse : parseWith (.recovering {})
      "f (a b) =\n let\n  g =\n   a\n in\n  case g of\n   x ->\n    (x)\n?".toList = .ok d := by
    rw [hd]
    decide +kernel
  exact ⟨d, hparse, by rw [hd], nodes_wellFormed _ _ _ _ hparse⟩

end Offside
