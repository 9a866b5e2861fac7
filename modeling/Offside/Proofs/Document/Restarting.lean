import Offside.Proofs.Document.Resuming
import Offside.Proofs.Parser.Ahead

/-!
# Starting again where a parse stopped

A parse stops where no item begins. The rest as a text of its own has the same text ahead, but nothing comes before it: it
begins a line, which is not indented. So an item that asks for the start of its line may begin there after all. Comments
and the heads of definitions ask for nothing of the kind; headers, types, signatures and imports do.
-/

namespace Offside

open Cursor

namespace Grammar

open Offside.Parser

variable {call : Rule → Cursor → Outcome Node} {c : Cursor}

/-- Comments ask for no rule, so they are the same however rules run. -/
theorem comment_eq_run_zero (call : Rule → Cursor → Outcome Node) (c : Cursor) :
    comment.runWith call c = comment.run 0 c := by
  refine runWith_eq_run_zero (fun hdeep => ?_) call
  exact (comment_ensures (Rule.forward 0) c).halts _ hdeep

/-- Whether a comment comes next is told from the text ahead. -/
theorem miss_comment_start_rest {call' : Rule → Cursor → Outcome Node} :
    comment.runWith call' (.start c.rest) = .miss ↔ comment.runWith call c = .miss := by
  rw [comment_eq_run_zero, comment_eq_run_zero call]
  exact miss_iff_of_looksAhead (Rule.forward 0) rfl rfl

/-- There is a definition just where the line has the looks of its head. -/
theorem miss_binding_iff (hgood : Good call) : binding.runWith call c = .miss ↔ ¬HeadLine c := by
  have hhead : head.runWith call c = .miss ↔ ¬HeadLine c :=
    (head_ensures hgood.forward c).miss_iff fun _ _ hd hno => hno hd.2.2.2.2
  refine ⟨fun h => hhead.mp ((binding_ensures hgood c).misses h), fun h => ?_⟩
  exact miss_assemble (miss_sequence (miss_seq (hhead.mpr h)))

/-- No item begins where no blank, comment, header or definition comes next, and no other declaration opens at the start
of its line. -/
theorem miss_topLevelItem_iff (hgood : Good call) :
    topLevelItem.runWith call c = .miss ↔
      c.next?.all (!isBlank ·) ∧ comment.runWith call c = .miss ∧ moduleDecl.runWith call c = .miss ∧
        ¬(c.atLineStart ∧ c.OpensDeclaration) ∧ ¬HeadLine c := by
  have hcall := hgood.forward
  have hblank : spaceRequired.Ensures call c (fun _ _ => c.next?.any isBlank) (c.next?.all (!isBlank ·)) .none :=
    .spaceRequired next?_of_lt_skipWhile id
  have hspace := hblank.miss_iff fun _ _ hd hno => not_any_of_all hno hd
  have hheader : (keywordBlock "module").runWith call c = .miss ↔ ¬(c.atLineStart ∧ c.matchesWord "module".toList) :=
    (keywordBlock_ensures hcall c (by decide)).miss_iff fun _ _ hd hno => hno ⟨hd.2.1, hd.2.2.1⟩
  have himport := (importDecl_ensures hcall c).miss_iff fun _ _ hd hno => hno hd.2
  have hsignature := (signature_ensures hcall c).miss_iff fun _ _ hd hno => hno hd.2
  have htype := (typeDecl_ensures hcall c).miss_iff fun _ _ hd hno => hno hd.2
  have hspaces : (skip (oneOf [spaceRequired, comment])).runWith call c = .miss ↔
      c.next?.all (!isBlank ·) ∧ comment.runWith call c = .miss := by
    rw [miss_skip_iff, miss_oneOf_iff, List.forall_mem_cons, List.forall_mem_singleton, hspace]
  rw [topLevelItem, runWith, miss_oneOf_iff]
  simp only [List.forall_mem_cons, List.not_mem_nil, false_implies, implies_true, and_true, hspaces,
    miss_skip_iff, hheader, himport, hsignature, htype, miss_binding_iff hgood, opensDeclaration_iff]
  simp only [and_or_left, not_or, and_assoc]

/-- Where no item begins, none begins in the rest as a text of its own, unless a declaration opens there. -/
theorem miss_topLevelItem_start_rest {call' : Rule → Cursor → Outcome Node} (hgood : Good call) (hgood' : Good call')
    (h : topLevelItem.runWith call c = .miss) :
    topLevelItem.runWith call' (.start c.rest) = .miss ↔ ¬(start c.rest).OpensDeclaration := by
  obtain ⟨hnext, hcomment, -, -, hhead⟩ := (miss_topLevelItem_iff hgood).mp h
  have hcomment' : comment.runWith call' (.start c.rest) = .miss := miss_comment_start_rest.mpr hcomment
  rw [miss_topLevelItem_iff hgood']
  constructor
  · rintro ⟨-, -, -, hno, -⟩ hopens
    exact hno ⟨rfl, hopens⟩
  · intro hno
    -- Alone among the items a header may begin within a line, but its keyword is asked for all the same.
    have hmodule : (start c.rest).matchesWord "module".toList = false := by
      by_contra hm
      exact hno (.header (by simpa using hm))
    have hheader : moduleDecl.runWith call' (.start c.rest) = .miss :=
      miss_assemble (miss_sequence (miss_seq (miss_skip (miss_keyword hmodule))))
    exact ⟨hnext, hcomment', hheader, fun hopens => hno hopens.2, hhead⟩

/-- Where no item begins and nothing comes before on the line, none begins in the rest. -/
theorem miss_topLevelItem_of_column {depth : Nat} (hcolumn : c.column = 1) (h : topLevelItem.run depth c = .miss) :
    topLevelItem.run depth (.start c.rest) = .miss := by
  -- Whole lines come before, so the runs with and without them are in step.
  have hlines := wholeLines_of_column hcolumn
  have hboth := topLevelItem.inStep_after hlines (Rule.inStep_after hlines depth) (.start c.rest)
  rw [start_rest_after] at hboth
  change (topLevelItem.run depth (.start c.rest)).InStep _ _ (topLevelItem.run depth c) at hboth
  rw [h] at hboth
  generalize topLevelItem.run depth (.start c.rest) = o at hboth
  cases hboth with
  | miss => rfl

end Grammar

namespace Cursor

variable {c : Cursor}

/-- Whether a signature opens is told from the text ahead. -/
theorem opensSignature_start_rest : (start c.rest).OpensSignature ↔ c.OpensSignature := by
  have hcolon : (start c.rest).typeColon.matchesWord ":".toList = c.typeColon.matchesWord ":".toList :=
    SameRest.matchesWord rfl (by decide)
  constructor
  · rintro ⟨hname, h, hblank⟩
    exact ⟨hname, hcolon ▸ h, hblank⟩
  · rintro ⟨hname, h, hblank⟩
    exact ⟨hname, hcolon ▸ h, hblank⟩

/-- Where only blanks come before on the line, a declaration that opens in the rest opens at the place, if it is not an import
with a name that is not nested there. -/
theorem opens_of_start_rest (hstart : c.atLineStart) (h : (start c.rest).OpensDeclaration) :
    c.OpensDeclaration ∨ c.matchesWord "import".toList ∧ c.importName.lead.length ≤ c.lead.length := by
  cases h with
  | header hm => exact Or.inl (.header (matchesWord_start_rest hstart _ ▸ hm))
  | typing hm => exact Or.inl (.typing (matchesWord_start_rest hstart _ ▸ hm))
  | signature hopens => exact Or.inl (.signature (opensSignature_start_rest.mp hopens))
  | importing hopens =>
    have hm : c.matchesWord "import".toList := matchesWord_start_rest hstart _ ▸ hopens.keyword
    rcases Nat.lt_or_ge c.lead.length c.importName.lead.length with hlt | hge
    · exact Or.inl (.importing ⟨hm, hopens.name, hlt⟩)
    · exact Or.inr ⟨hm, hge⟩

end Cursor

section Documents

variable {depth : Nat} {t : Text} {d : Document}

/-- The items of a document stop where none begins. -/
theorem miss_topLevelItem_of_items {c stop : Cursor} {found : List Node}
    (h : (Options.items {}).run depth c = .hit stop found) : Grammar.topLevelItem.run depth stop = .miss := by
  rw [Options.run_items_eq rfl] at h
  rcases repeatFrom_stuck h with hmiss | ⟨e, v, hhit, hlt⟩
  · exact hmiss
  · have hahead := ((Grammar.topLevelItem_ensures (Rule.good depth) stop).hits e v hhit).1
    exact absurd (lt_iff.mp hahead).2 hlt

/-- A parse gives nothing and does not move just if no item begins at the start of the text. -/
theorem parseWithin_eq_nothing_iff :
    parseWithin depth {} t = .ok ⟨[], .start t⟩ ↔ Grammar.topLevelItem.run depth (.start t) = .miss := by
  rw [parseWithin_eq_ok_iff rfl]
  constructor
  · rintro ⟨found, hrun, -⟩
    exact miss_topLevelItem_of_items hrun
  · intro hmiss
    refine ⟨[], ?_, rfl⟩
    rw [Options.run_items_eq rfl]
    exact repeatFrom_of_miss hmiss

end Documents

/-- Where parsing stopped it stays stopped, unless the rest opens a declaration by itself: a header, a type, a signature, or
an import with a name that goes with it. Where only blanks come before the stop on its line, that can only be an import with
a name that is not indented further than the keyword there; where nothing comes before it, there is none. -/
theorem stays_stopped_unless_declaration {m : Nat} {t : Text} {d : Document} (h : parseWithin m {} t = .ok d) :
    (∀ n, parseWithin n {} d.rest = .ok ⟨[], .start d.rest⟩ ↔ ¬(Cursor.start d.rest).OpensDeclaration) ∧
    (d.stop.column = 1 → ¬(Cursor.start d.rest).OpensDeclaration) ∧
    (d.stop.atLineStart → (Cursor.start d.rest).OpensDeclaration →
      d.stop.matchesWord "import".toList ∧ d.stop.importName.lead.length ≤ d.stop.lead.length) := by
  obtain ⟨found, -, hrun⟩ := exists_run_items_of_parseWithin h
  have hmiss := miss_topLevelItem_of_items hrun
  have hrest (n : Nat) := Grammar.miss_topLevelItem_start_rest (Rule.good m) (Rule.good n) hmiss
  refine ⟨fun n => parseWithin_eq_nothing_iff.trans (hrest n), fun hcolumn => ?_, fun hstart hopens => ?_⟩
  · exact (hrest m).mp (Grammar.miss_topLevelItem_of_column hcolumn hmiss)
  · obtain ⟨-, -, -, hno, -⟩ := (Grammar.miss_topLevelItem_iff (Rule.good m)).mp hmiss
    exact (opens_of_start_rest hstart hopens).resolve_left fun hhere => hno ⟨hstart, hhere⟩

/-- A parenthesis that nothing opens is left after a definition, and by itself it gives nothing either. -/
theorem stays_stopped_unless_declaration_parenthesis :
    parseWithin 1 {} "f =\n  x\n)".toList =
      .ok ⟨[.binding ⟨⟨"f".toList, []⟩, .call ["x".toList]⟩], ⟨"\nx  \n= f".toList, ")".toList⟩⟩ ∧
    ∀ n, parseWithin n {} ")".toList = .ok ⟨[], .start ")".toList⟩ := by
  have hparse : parseWithin 1 {} "f =\n  x\n)".toList =
      .ok ⟨[.binding ⟨⟨"f".toList, []⟩, .call ["x".toList]⟩], ⟨"\nx  \n= f".toList, ")".toList⟩⟩ := by decide +kernel
  obtain ⟨hrest, hcolumn, -⟩ := stays_stopped_unless_declaration hparse
  exact ⟨hparse, fun n => (hrest n).mpr (hcolumn (by decide))⟩

/-- An import after a module header on one line is left, and by itself it is parsed. So is one whose name is on a later line,
where the keyword is indented further than the name. -/
theorem rest_may_open_import :
    (∃ d more, parse "module Main exposing (a) import X".toList = .ok d ∧ d.rest = "import X".toList ∧
      parse d.rest = .ok more ∧ more.nodes = [.importDecl "X".toList []] ∧ more.stop.offset = 8) ∧
    ∃ d more, parse "\n  import \n b".toList = .ok d ∧ d.rest = "import \n b".toList ∧ d.nodes = [] ∧
      parse d.rest = .ok more ∧ more.nodes = [.importDecl "b".toList []] ∧ more.stop.offset = 10 := by
  refine ⟨⟨⟨[.moduleDecl "Main".toList ["a".toList]], ⟨"module Main exposing (a) ".toList.reverse, "import X".toList⟩⟩,
    ⟨[.importDecl "X".toList []], ⟨"import X".toList.reverse, []⟩⟩, ?_, rfl, ?_, rfl, ?_⟩,
    ⟨⟨[], ⟨"\n  ".toList.reverse, "import \n b".toList⟩⟩,
    ⟨[.importDecl "b".toList []], ⟨"import \n b".toList.reverse, []⟩⟩, ?_, rfl, rfl, ?_, rfl, ?_⟩⟩
  all_goals decide +kernel

end Offside
