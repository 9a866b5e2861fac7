import Offside.Proofs.Canonical.Expressions
import Offside.Proofs.Document.Faults

/-!
# Completeness

A canonically laid out program is parsed as what it is: its definitions, in order, to the end of the text.
-/

namespace Offside

namespace Canonical

open Offside.Parser Cursor

variable {call : Rule → Cursor → Outcome Node}

/-- A statement is a definition where no blank, comment, header, signature or type begins. -/
theorem topLevelItem_eq {c : Cursor} (hvisible : c.next?.all (!isBlank ·))
    (hcomment : Grammar.comment.runWith call c = .miss)
    (hsignature : Grammar.signatureExtent.runWith call c = .miss) (hmodule : c.matchesWord "module".toList = false)
    (himport : c.matchesWord "import".toList = false) (htype : c.matchesWord "type".toList = false) :
    Grammar.topLevelItem.runWith call c = (firstOf [Grammar.binding]).runWith call c := by
  have hspace : (oneOf [spaceRequired, Grammar.comment]).runWith call c = .miss := by
    refine miss_firstOf_iff.mpr fun p hp => ?_
    simp only [List.mem_cons, List.not_mem_nil, or_false] at hp
    rcases hp with rfl | rfl
    · exact miss_spaceRequired hvisible
    · exact hcomment
  have hheader : Grammar.moduleDecl.runWith call c = .miss :=
    miss_assemble (miss_sequence (miss_seq (miss_skip (miss_keyword hmodule))))
  have hdecl : Grammar.importDecl.runWith call c = .miss := miss_assemble (miss_twoPass (miss_keywordBlock himport))
  have htyped : Grammar.signature.runWith call c = .miss := miss_assemble (miss_twoPass hsignature)
  have htypes : Grammar.typeDecl.runWith call c = .miss := miss_assemble (miss_twoPass (miss_keywordBlock htype))
  refine (firstOf_of_miss (miss_skip hspace)).trans ((firstOf_of_miss hheader).trans ?_)
  refine (firstOf_of_miss (miss_skip (miss_keywordBlock hmodule))).trans ((firstOf_of_miss hdecl).trans ?_)
  exact (firstOf_of_miss htyped).trans (firstOf_of_miss htypes)

/-- A definition is read as a statement at the top level. -/
theorem reads_topLevelItem {d : Definition} (hbody : Parses call d.body) :
    Reads call Grammar.topLevelItem 4 (d.lines 0) (.binding d.binding) := by
  intro past tail hpast htail
  obtain ⟨past', hpast', hbinding⟩ := reads_binding (n := 0) hbody past tail hpast htail
  obtain ⟨-, hwords⟩ := List.forall_mem_cons.mp (d.tidy 0).2
  have hcolon : NoColon ((d.params.map Ident.name ++ ["=".toList]).flatMap (' ' :: ·) ++
      '\n' :: (textOf (d.body.lines 4) ++ tail)) := noColon_words hwords (Or.inl (by simp))
  have hgap := gap_words (d.params.map Ident.name ++ ["=".toList]) (gap_newline (textOf (d.body.lines 4) ++ tail))
  have hpast₀ := gap_spaces 0 hpast
  have hword := d.name.word
  have hopens : opening past (textOf (d.lines 0) ++ tail) =
      ⟨spaces 0 ++ past, d.name.name ++ ((d.params.map Ident.name ++ ["=".toList]).flatMap (' ' :: ·) ++
        '\n' :: (textOf (d.body.lines 4) ++ tail))⟩ := by
    rw [Definition.lines_eq]
    exact opening_cons (d.tidy 0) past tail
  rw [hopens] at hbinding ⊢
  generalize (d.params.map Ident.name ++ ["=".toList]).flatMap (' ' :: ·) ++ '\n' :: (textOf (d.body.lines 4) ++ tail) =
    rest at *
  have hother {kw : Text} (hkw : kw ∈ reserved) := matchesWord_other hword hpast₀ hgap hkw (d.name.ne_of_mem_reserved hkw)
  refine ⟨past', hpast', ?_⟩
  have hitem : Grammar.topLevelItem.runWith call ⟨spaces 0 ++ past, d.name.name ++ rest⟩ = _ :=
    topLevelItem_eq (hword.head?_not_isBlank rest) (miss_comment (hword.head? rest))
      (miss_signatureExtent hword hgap.head?_not_isTokenChar hcolon) (hother (by decide)) (hother (by decide)) (hother (by decide))
  exact hitem.trans (firstOf_of_hit hbinding)

/-- At the end of the text there is no statement. -/
theorem miss_topLevelItem_nil (past : Text) : Grammar.topLevelItem.runWith call ⟨past, []⟩ = .miss := by
  have hcomment : Grammar.comment.runWith call ⟨past, []⟩ = .miss := by
    refine miss_firstOf_iff.mpr fun p hp => ?_
    simp only [List.mem_cons, List.not_mem_nil, or_false] at hp
    rcases hp with rfl | rfl | rfl <;> exact miss_seq (miss_keyword rfl)
  have hsignature : Grammar.signatureExtent.runWith call ⟨past, []⟩ = .miss :=
    miss_onlyIf (miss_lineStart_andThen (miss_seq (miss_token rfl)))
  rw [topLevelItem_eq rfl hcomment hsignature rfl rfl rfl, firstOf_of_miss (miss_binding_nil past)]
  rfl

/-- The items of a program are its definitions, up to the end of the text. -/
theorem run_items_render {depth : Nat} (program : List Definition) (hdepth : Definition.maxHeight program ≤ depth) :
    ∃ stop, stop.isDone ∧ (Options.items {}).run depth (.start (render program)) =
      .hit stop (program.map fun d => .binding d.binding) := by
  have hreads (d : Definition) (hd : d ∈ program) :
      Reads (Rule.run depth) Grammar.topLevelItem 4 (d.lines 0) (.binding d.binding) := by
    have hle := Definition.height_le_maxHeight hd
    rw [Definition.height_eq] at hle
    exact reads_topLevelItem ((complete_run depth).parses d.body (Nat.le_trans hle hdepth))
  obtain ⟨past', hmany⟩ := repeatFrom_reads (by decide : 0 < 4) miss_topLevelItem_nil (List.all_nil (f := isBlank))
    (fun d _ => d.block 0) hreads atStart_nil
  have hopens : opening [] (textOf (program.flatMap (Definition.lines 0)) ++ []) = .start (render program) := by
    rw [List.append_nil, render, Definition.allLines_eq]
    refine skipWhile_eq_self ?_
    cases program with
    | nil => rfl
    | cons d ds =>
      have htext : textOf ((d :: ds).flatMap (Definition.lines 0)) = d.name.name ++
          ((d.params.map Ident.name ++ ["=".toList]).flatMap (' ' :: ·) ++
            '\n' :: (textOf (d.body.lines 4) ++ textOf (ds.flatMap (Definition.lines 0)))) := by
        rw [List.flatMap_cons, textOf_append, Definition.lines_eq]
        simp [Line.text_eq, Line.content, intercalate_cons, spaces]
      rw [htext]
      exact d.name.word.head?_not_isBlank _
  rw [hopens] at hmany
  exact ⟨_, rfl, hmany⟩

/-- A canonically laid out program is parsed as its definitions, to the end of the text. -/
theorem parse_render (program : List Definition) :
    parse (render program) = .ok ⟨program.map fun d => .binding d.binding,
      (Cursor.start (render program)).advance (render program).length⟩ := by
  have hdepth : Definition.maxHeight program ≤ depthBound (render program) := by
    have hbound : (render program).length + 2 ≤ depthBound (render program) :=
      Nat.le_mul_of_pos_left _ (by omega)
    have hle := maxHeight_le_render program
    omega
  obtain ⟨stop, hdone, hrun⟩ := run_items_render program hdepth
  have hend := eq_end_of_isDone ((Options.items {}).le_of_hit (Rule.forward _) hrun) hdone
  have hkeep : (program.map fun d => Node.binding d.binding).filter (!·.isIgnore) =
      program.map fun d => .binding d.binding := by
    rw [List.filter_eq_self, List.forall_mem_map]
    exact fun d _ => rfl
  rw [parse, parseWith, parseWithin_of_hit hrun, hend, parseWithin.finish, Document.ofItems, hkeep]
  rfl

end Canonical

end Offside
