import Offside.Proofs.Canonical.Headings

/-!
# Definitions, conditions and cases

What is put together from expressions is read as its lines, if the rule for expressions gives the nodes of its parts.
-/

namespace Offside

namespace Canonical

open Offside.Parser Cursor

/-- The rule for expressions gives the node of the expression wherever its block is all of a text, with blanks around. -/
def Parses (call : Rule → Cursor → Outcome Node) (e : Expr) : Prop :=
  ∀ n lead tail, lead.all isBlank → AtStart lead.reverse → tail.all isBlank →
    ∃ stop, call .expr (.start (lead ++ (textOf (e.lines n) ++ tail))) = .hit stop e.node

theorem Expr.node_isIgnore (e : Expr) : e.node.isIgnore = false := by
  cases e <;> rfl

/-! ## Blocks -/

theorem Ident.ne_header (i : Ident) : "module".toList ≠ i.name ∧ "import".toList ≠ i.name :=
  ⟨i.ne_of_mem_reserved (by decide), i.ne_of_mem_reserved (by decide)⟩

theorem Expr.block (e : Expr) (n : Nat) : Block n (e.lines n) := by
  refine ⟨e.within n, ?_⟩
  cases e with
  | call names => exact ⟨_, _, _, rfl, names.first.word, names.first.ne_header⟩
  | ifThenElse condition yes no => exact ⟨_, _, _, rfl, word_of_mem_reserved (by decide), by decide, by decide⟩
  | letIn first more body => exact ⟨_, _, _, rfl, word_of_mem_reserved (by decide), by decide, by decide⟩
  | caseOf subject first more => exact ⟨_, _, _, rfl, word_of_mem_reserved (by decide), by decide, by decide⟩

theorem Definition.block (d : Definition) (n : Nat) : Block n (d.lines n) := by
  have hbody := (d.body.within (n + 4)).of_le (Nat.le_add_right n 4)
  rw [Definition.lines_eq]
  exact ⟨within_cons (d.tidy n) (Nat.le_refl n) hbody, _, _, _, rfl, d.name.word, d.name.ne_header⟩

theorem Branch.block (b : Branch) (n : Nat) : Block n (b.lines n) := by
  have hbody := (b.body.within (n + 4)).of_le (Nat.le_add_right n 4)
  rw [Branch.lines_eq]
  exact ⟨within_cons (b.tidy n) (Nat.le_refl n) hbody, _, _, _, rfl, b.pattern.first.word, b.pattern.first.ne_header⟩

section Compounds

variable {call : Rule → Cursor → Outcome Node} {n : Nat}

variable (call) in
theorem hit_spaceOptional_opening (past t : Text) :
    spaceOptional.runWith call (opening past t) = .hit (opening past t) () := by
  rw [hit_spaceOptional, opening, skipWhile_skipWhile]

/-- The block of an expression is read as its node. -/
theorem hit_indented_expr {e : Expr} (he : Parses call e) {past tail : Text} (hpast : AtStart past)
    (htail : Closes n tail) :
    (indented Grammar.nestedExpr).runWith call (opening past (textOf (e.lines n) ++ tail)) =
      .hit (opening ((textOf (e.lines n)).reverse ++ past) tail) e.node := by
  obtain ⟨stop, hstop⟩ := he n [] (tail.takeWhile isBlank) rfl atStart_nil (by simp)
  exact hit_indented (e.block n) htail hpast hstop

/-! ## Definitions and arms -/

/-- A definition is read up to a line that is less far in than its body. -/
theorem reads_binding {d : Definition} (hbody : Parses call d.body) :
    Reads call Grammar.binding (n + 4) (d.lines n) (.binding d.binding) := by
  intro past tail hpast htail
  have htidy := d.tidy n
  obtain ⟨past', hhead⟩ := hit_head call d n (spaces n ++ past) (textOf (d.body.lines (n + 4)) ++ tail)
  have hindented := hit_indented_expr hbody (atStart_newline past') htail
  have hspace := hit_spaceOptional_opening call ('\n' :: past') (textOf (d.body.lines (n + 4)) ++ tail)
  have hend := hit_spaceOptional_opening call ((textOf (d.body.lines (n + 4))).reverse ++ '\n' :: past') tail
  have hopens : opening past (textOf (d.lines n) ++ tail) =
      ⟨spaces n ++ past, d.name.name ++ ((d.params.map Ident.name).flatMap (' ' :: ·) ++ [' ']) ++
        ("=".toList ++ '\n' :: (textOf (d.body.lines (n + 4)) ++ tail))⟩ := by
    rw [Definition.lines_eq, opening_line htidy]
    simp [Line.content, intercalate_cons]
  have hmake : Form.binding.assemble (Node.collapse [.head ⟨d.name.name, d.params.map Ident.name⟩, .ignore, d.body.node,
      .ignore]) = .ok (.binding d.binding) := by
    obtain ⟨name, params, body⟩ := d
    cases body <;> rfl
  refine ⟨_, (d.body.block (n + 4)).atStart ('\n' :: past'), ?_⟩
  rw [hopens]
  exact hit_assemble (hit_sequence (hit_gather_cons hhead (hit_gather_cons (hit_skip hspace)
    (hit_gather_cons hindented (hit_gather_cons (hit_skip hend) hit_gather_nil))))) hmake

/-- At the end of the text there is no definition. -/
theorem miss_binding_nil (past : Text) : Grammar.binding.runWith call ⟨past, []⟩ = .miss := by
  have hhead : Grammar.head.runWith call ⟨past, []⟩ = .miss :=
    miss_sequence (miss_seq (miss_assemble (miss_twoPass (miss_scan rfl))))
  exact miss_assemble (miss_sequence (miss_seq hhead))

variable (call) in
/-- Where a line of more words than one opens there is no noise to skip. -/
theorem hit_noise_line {m : Nat} {w : Text} {ws : List Text} {ls : List Line} {past : Text} (tail : Text)
    (hwithin : Within m (⟨n, w :: ws⟩ :: ls)) (hw : Word w) (hheader : "module".toList ≠ w ∧ "import".toList ≠ w)
    (hpast : AtStart past) (hws : ws ≠ []) :
    (skip Grammar.skipNoise).runWith call (opening past (textOf (⟨n, w :: ws⟩ :: ls) ++ tail)) =
      .hit (opening past (textOf (⟨n, w :: ws⟩ :: ls) ++ tail)) .ignore := by
  obtain ⟨hmodule, himport⟩ := hheader
  refine hit_skip ?_
  rw [Grammar.skipNoise_eq_hit]
  exact congrArg (Outcome.hit · ())
    (noiseStop_line (skipWhile_skipWhile _ _) hwithin hw hmodule himport hpast (Or.inl hws))

/-- A local definition is read like a definition, with no noise before it. -/
theorem reads_localBinding {d : Definition} (hbody : Parses call d.body) :
    Reads call (sequence [skip Grammar.skipNoise, Grammar.binding]) (n + 4) (d.lines n) (.binding d.binding) := by
  intro past tail hpast htail
  obtain ⟨past', hpast', hbinding⟩ := reads_binding hbody past tail hpast htail
  have hwithin := (d.block n).1
  rw [Definition.lines_eq] at hwithin hbinding ⊢
  have hnoise := hit_noise_line call tail hwithin d.name.word d.name.ne_header hpast (by simp)
  exact ⟨past', hpast', hit_sequence (hit_gather_cons hnoise (hit_gather_cons hbinding hit_gather_nil))⟩

/-- The arms of a case expression are read up to a line that is less far in than their bodies. -/
theorem reads_arm {b : Branch} (hbody : Parses call b.body) :
    Reads call Grammar.arm (n + 4) (b.lines n) (.arm b.arm) := by
  intro past tail hpast htail
  have htidy := b.tidy n
  have hwithin := (b.block n).1
  have hopens : opening past (textOf (b.lines n) ++ tail) =
      ⟨spaces n ++ past,
        b.pattern.text ++ ([' '] ++ ("->".toList ++ '\n' :: (textOf (b.body.lines (n + 4)) ++ tail)))⟩ := by
    rw [Branch.lines_eq, opening_line htidy]
    simp [Line.content, Names.texts, intercalate_cons, Names.text_eq]
  have hnoise : (skip Grammar.skipNoise).runWith call (opening past (textOf (b.lines n) ++ tail)) =
      .hit (opening past (textOf (b.lines n) ++ tail)) .ignore := by
    rw [Branch.lines_eq] at hwithin ⊢
    exact hit_noise_line call tail hwithin b.pattern.first.word b.pattern.first.ne_header hpast (by simp)
  generalize hp : "->".toList.reverse ++ ((b.pattern.text ++ [' ']).reverse ++ (spaces n ++ past)) = past'
  have hpattern := hit_pattern call b n (spaces n ++ past) (textOf (b.body.lines (n + 4)) ++ tail)
  rw [hp] at hpattern
  have hspace : spaceOptional.runWith call ⟨past', '\n' :: (textOf (b.body.lines (n + 4)) ++ tail)⟩ = .hit _ () :=
    hit_spaceOptional
  rw [skipWhile_newline] at hspace
  have hindented := hit_indented_expr hbody (atStart_newline past') htail
  have hmake : Form.arm.assemble (Node.collapse [.ignore, .pattern b.pattern.text, .ignore, b.body.node]) =
      .ok (.arm b.arm) := by
    obtain ⟨pattern, body⟩ := b
    cases body <;> rfl
  rw [hopens] at hnoise ⊢
  refine ⟨_, (b.body.block (n + 4)).atStart ('\n' :: past'), ?_⟩
  exact hit_assemble (hit_sequence (hit_gather_cons hnoise (hit_gather_cons hpattern (hit_gather_cons (hit_skip hspace)
    (hit_gather_cons hindented hit_gather_nil))))) hmake

/-! ## Local definitions and cases -/

/-- Definitions that are all of a text are listed. -/
theorem hit_letBindings {first : Definition} {more : List Definition} (h : ∀ d ∈ first :: more, Parses call d.body)
    {tail : Text} (htail : tail.all isBlank) :
    ∃ stop, (expect "let bindings" (oneOrMore (sequence [skip Grammar.skipNoise, Grammar.binding]))).runWith call
        (.start (textOf (Definition.allLines n (first :: more)) ++ tail)) =
      .hit stop (.list ((Definition.bindings (first :: more)).map .binding)) := by
  have hend (past : Text) : (sequence [skip Grammar.skipNoise, Grammar.binding]).runWith call ⟨past, []⟩ = .miss :=
    miss_sequence (miss_seq_of_hit (hit_skip hit_skipNoise_nil) (miss_seq (miss_binding_nil past)))
  obtain ⟨stop, hstop⟩ := hit_oneOrMore_reads (Nat.lt_add_of_pos_right (by decide : 0 < 4))
    (fun _ _ => Grammar.runWith_of_noiseStop) hend htail (fun d _ => d.block n) (fun d hd => reads_localBinding (h d hd))
  have hlist : Node.listOf ((first :: more).map fun d => .binding d.binding) =
      .list ((Definition.bindings (first :: more)).map .binding) := by
    rw [Node.listOf_map fun _ => rfl, Definition.bindings_eq, List.map_map]
    rfl
  rw [Definition.allLines_eq, ← hlist]
  exact ⟨stop, hit_expect hstop⟩

theorem Definition.block_allLines (n : Nat) (first : Definition) (more : List Definition) :
    Block n (Definition.allLines n (first :: more)) := by
  rw [Definition.allLines_eq]
  exact block_flatMap fun d _ => d.block n

/-- A keyword and the block of an expression are a block. -/
theorem block_keyword {kw : Text} (hkw : kw ∈ reserved) (hheader : "module".toList ≠ kw ∧ "import".toList ≠ kw) (e : Expr) :
    Block n (⟨n, [kw]⟩ :: e.lines (n + 4)) := by
  have hle := (e.within (n + 4)).of_le (Nat.le_add_right n 4)
  exact ⟨within_cons (tidy_singleton (lexeme_of_mem_reserved hkw)) (Nat.le_refl n) hle, _, _, _, rfl,
    word_of_mem_reserved hkw, hheader⟩

/-- Where a line that is a keyword opens, its newline comes after the keyword. -/
theorem opening_keyword {kw : Text} (hkw : kw ∈ reserved) (past : Text) (ls : List Line) (tail : Text) :
    opening past (textOf (⟨n, [kw]⟩ :: ls) ++ tail) = ⟨spaces n ++ past, kw ++ '\n' :: (textOf ls ++ tail)⟩ := by
  rw [opening_line (tidy_singleton (lexeme_of_mem_reserved hkw))]
  simp [Line.content]

/-- A line that is a keyword is read with the block under it. -/
theorem hit_subBlock_opening {α : Type} (word : String) (content : Parser α) {m : Nat} {ls : List Line} {past tail : Text}
    {stop : Cursor} {v : α} (hword : word.toList ∈ reserved) (hpast : AtStart past) (hblock : Block m ls)
    (htail : Closes m tail)
    (hv : content.runWith call (.start (textOf ls ++ tail.takeWhile isBlank)) = .hit stop v) :
    ∃ past', AtStart past' ∧ (subBlock word content).runWith call
      (opening past (textOf (⟨n, [word.toList]⟩ :: ls) ++ tail)) = .hit (opening past' tail) v := by
  have hopens := opening_keyword (n := n) hword past ls tail
  have hstill : (opening past (textOf (⟨n, [word.toList]⟩ :: ls) ++ tail)).skipWhile isBlank = _ := skipWhile_skipWhile _ _
  exact ⟨_, hblock.atStart _, hit_subBlock (hstill.trans hopens) (word_of_mem_reserved hword) (gap_spaces n hpast) hblock
    htail hv⟩

/-- Local definitions and their body are read up to a line that is less far in than the body. -/
theorem reads_letIn {first : Definition} {more : List Definition} {body : Expr}
    (hbindings : ∀ d ∈ first :: more, Parses call d.body) (hbody : Parses call body) :
    Reads call Grammar.letIn (n + 4) ((Expr.letIn first more body).lines n) (Expr.letIn first more body).node := by
  intro past tail hpast htail
  have hin : "in".toList ∈ reserved := by decide
  have hcloses := (block_keyword (n := n) hin (by decide) body).closes (Nat.lt_add_of_pos_right (by decide : 0 < 4)) tail
  obtain ⟨stop, hstop⟩ := hit_letBindings (n := n + 4) hbindings
    (List.all_takeWhile (p := isBlank) (l := textOf (⟨n, ["in".toList]⟩ :: body.lines (n + 4)) ++ tail))
  obtain ⟨past', hpast', hlet⟩ := hit_subBlock_opening (n := n) "let" _ (by decide) hpast
    (Definition.block_allLines _ first more) hcloses hstop
  obtain ⟨stop', hstop'⟩ := hbody (n + 4) [] (tail.takeWhile isBlank) rfl atStart_nil List.all_takeWhile
  obtain ⟨past'', hpast'', hbody⟩ := hit_subBlock_opening (n := n) "in" Grammar.nestedExpr hin hpast' (body.block (n + 4))
    htail hstop'
  refine ⟨past'', hpast'', ?_⟩
  rw [Expr.lines_letIn, ← List.cons_append, textOf_append, List.append_assoc]
  have hcollapse : Node.collapse [.list ((Definition.bindings (first :: more)).map .binding), body.node] =
      .list [.list ((Definition.bindings (first :: more)).map .binding), body.node] := by
    cases body <;> rfl
  refine hit_assemble (hit_sequence (hit_gather_cons hlet (hit_gather_cons hbody hit_gather_nil))) ?_
  rw [hcollapse, Form.assemble_letIn]
  rfl

/-- Arms that are all of a text are listed. -/
theorem hit_arms {first : Branch} {more : List Branch} (h : ∀ b ∈ first :: more, Parses call b.body)
    {tail : Text} (htail : tail.all isBlank) :
    ∃ stop, (oneOrMore Grammar.arm).runWith call (.start (textOf (Branch.allLines n (first :: more)) ++ tail)) =
      .hit stop (.list ((Branch.arms (first :: more)).map .arm)) := by
  have hnoise (c d : Cursor) (hcd : Grammar.noiseStop c = Grammar.noiseStop d) :
      Grammar.arm.runWith call c = Grammar.arm.runWith call d := by
    simp only [Grammar.arm, assemble, runWith]
    rw [Grammar.runWith_of_noiseStop hcd]
  have hpattern (past : Text) : Grammar.pattern.runWith call ⟨past, []⟩ = .miss :=
    miss_assemble (miss_sequence (miss_seq (miss_twoPass (miss_scan rfl))))
  have hend (past : Text) : Grammar.arm.runWith call ⟨past, []⟩ = .miss :=
    miss_assemble (miss_sequence (miss_seq_of_hit (hit_skip hit_skipNoise_nil) (miss_seq (hpattern past))))
  obtain ⟨stop, hstop⟩ := hit_oneOrMore_reads (Nat.lt_add_of_pos_right (by decide : 0 < 4)) hnoise hend htail
    (fun b _ => b.block n) (fun b hb => reads_arm (h b hb))
  have hlist : Node.listOf ((first :: more).map fun b => .arm b.arm) = .list ((Branch.arms (first :: more)).map .arm) := by
    rw [Node.listOf_map fun _ => rfl, Branch.arms_eq, List.map_map]
    rfl
  rw [Branch.allLines_eq, ← hlist]
  exact ⟨stop, hstop⟩

theorem Branch.block_allLines (n : Nat) (first : Branch) (more : List Branch) :
    Block n (Branch.allLines n (first :: more)) := by
  rw [Branch.allLines_eq]
  exact block_flatMap fun b _ => b.block n

/-- A case expression is read up to a line that is less far in than its arms. -/
theorem reads_caseOf {subject : Names} {first : Branch} {more : List Branch}
    (h : ∀ b ∈ first :: more, Parses call b.body) :
    Reads call Grammar.caseOf (n + 4) ((Expr.caseOf subject first more).lines n) (Expr.caseOf subject first more).node := by
  intro past tail hpast htail
  have hopens : opening past (textOf ((Expr.caseOf subject first more).lines n) ++ tail) =
      ⟨spaces n ++ past, "case".toList ++ ([' '] ++ (subject.text ++ [' ']) ++
        ("of".toList ++ '\n' :: (textOf (Branch.allLines (n + 4) (first :: more)) ++ tail)))⟩ := by
    rw [Expr.lines_caseOf, opening_line (tidy_case n subject)]
    simp [Line.content, Names.texts, intercalate_cons, Names.text_eq]
  have hhead := hit_caseHead call subject n (gap_spaces n hpast)
    (textOf (Branch.allLines (n + 4) (first :: more)) ++ tail)
  generalize "of".toList.reverse ++ (([' '] ++ (subject.text ++ [' '])).reverse ++ ("case".toList.reverse ++
    (spaces n ++ past))) = past' at hhead
  have hspace : spaceOptional.runWith call ⟨past', '\n' :: (textOf (Branch.allLines (n + 4) (first :: more)) ++ tail)⟩ =
      .hit _ () := hit_spaceOptional
  rw [skipWhile_newline] at hspace
  have hblock := Branch.block_allLines (n + 4) first more
  obtain ⟨stop, hstop⟩ := hit_arms (n := n + 4) h (List.all_takeWhile (p := isBlank) (l := tail))
  have hindented := hit_indented hblock htail (atStart_newline past') hstop
  refine ⟨_, hblock.atStart ('\n' :: past'), ?_⟩
  rw [hopens]
  refine hit_assemble (hit_sequence (hit_gather_cons hhead (hit_gather_cons (hit_skip hspace)
    (hit_gather_cons hindented hit_gather_nil)))) ?_
  exact Form.assemble_caseOf subject.text (Branch.arms (first :: more))

/-! ## Conditions -/

/-- No `then` begins in a text that stands between blanks. -/
def NoThen (s : Text) : Prop :=
  ∀ past rest, Apart past → Apart rest → Free "then".toList past s rest

theorem word_then : Word "then".toList := word_of_mem_reserved (by decide)

/-- No `then` begins in other words. -/
theorem noThen_words {ws : List Text} (hws : ∀ w ∈ ws, Word w ∧ "then".toList ≠ w) : NoThen ([' '].intercalate ws) :=
  fun _ _ hpast hrest => free_intercalate word_then (fun w hw => ⟨(hws w hw).1.lexeme, (hws w hw).2⟩) hpast hrest

/-- The condition of an `if` is what comes before its `then`. -/
theorem hit_untilThen {s : Text} (hs : NoThen s) {past t : Text} (hpast : Apart past) (ht : Gap t) :
    (scan (.untilKeyword "then".toList)).runWith call ⟨past, s ++ [' '] ++ ("then".toList ++ t)⟩ =
      .hit ⟨(s ++ [' ']).reverse ++ past, "then".toList ++ t⟩ () := by
  have hfree := hs past ([' '] ++ ("then".toList ++ t)) hpast (apart_blank ("then".toList ++ t))
  have hblank : Free "then".toList (s.reverse ++ past) [' '] ("then".toList ++ t) :=
    free_of_not_word word_then (not_isWordChar_of_any rfl)
  have hmatch := matchesWord_self word_then (gap_concat s past) ht
  have hstop : firstPlace? (·.matchesWord "then".toList) ((s ++ [' ']).reverse ++ past) ("then".toList ++ t) = some 0 :=
    if_pos hmatch
  refine hit_scan_append ?_
  simp only [Scanner.reach?, firstPlace?_append word_then (free_append hfree hblank), hstop]
  simp

/-- The rule for conditions matches or does not: it reads the expression if that is a condition, and misses where it opens
if it is none. -/
def ElseIf (call : Rule → Cursor → Outcome Node) (e : Expr) : Prop :=
  (∀ n, Reads call (ofRule "If" .ifThenElse) (n + 4) (e.lines n) e.node) ∨
    ∀ n past tail, AtStart past →
      (ofRule "If" .ifThenElse).runWith call (opening past (textOf (e.lines n) ++ tail)) = .miss

/-- An `else` with a condition after it. -/
def elseIf : Parser Node :=
  sequence [skip spaceOptional, skip (keyword "else"), skip spaceRequired, ofRule "If" .ifThenElse]

/-- What comes after `else` is read as the second branch, whether it is a condition or not. -/
theorem hit_elseBranch {no : Expr} (hno : Parses call no) (helse : ElseIf call no) {past tail : Text} (hpast : Gap past)
    (htail : Closes n tail) :
    ∃ past', AtStart past' ∧ (oneOf [elseIf, subBlock "else" Grammar.nestedExpr]).runWith call
        ⟨past, "else".toList ++ '\n' :: (textOf (no.lines n) ++ tail)⟩ =
      .hit (opening past' tail) no.node := by
  have hword := word_of_mem_reserved (w := "else".toList) (by decide)
  have hstill : (Cursor.mk past ("else".toList ++ '\n' :: (textOf (no.lines n) ++ tail))).skipWhile isBlank =
      ⟨past, "else".toList ++ '\n' :: (textOf (no.lines n) ++ tail)⟩ := skipWhile_eq_self (hword.head?_not_isBlank _)
  have hspace : spaceOptional.runWith call ⟨past, "else".toList ++ '\n' :: (textOf (no.lines n) ++ tail)⟩ =
      .hit ⟨past, "else".toList ++ '\n' :: (textOf (no.lines n) ++ tail)⟩ () := by
    rw [hit_spaceOptional, hstill]
  have hkeyword : (keyword "else").runWith call ⟨past, "else".toList ++ '\n' :: (textOf (no.lines n) ++ tail)⟩ = _ :=
    hit_keyword_append (matchesWord_self hword hpast (gap_newline _))
  have hrequired : spaceRequired.runWith call ⟨"else".toList.reverse ++ past, '\n' :: (textOf (no.lines n) ++ tail)⟩ =
      .hit _ () := hit_spaceRequired rfl
  rw [skipWhile_newline] at hrequired
  rcases helse with hreads | hmiss
  · obtain ⟨past', hpast', hif⟩ := hreads n _ tail (atStart_newline ("else".toList.reverse ++ past))
      (htail.of_le (Nat.le_add_right n 4))
    have hcollapse : Node.collapse [.ignore, .ignore, .ignore, no.node] = no.node := by cases no <;> rfl
    have helseIf := hit_sequence (hit_gather_cons (hit_skip hspace) (hit_gather_cons (hit_skip hkeyword)
      (hit_gather_cons (hit_skip hrequired) (hit_gather_cons hif hit_gather_nil))))
    rw [hcollapse] at helseIf
    exact ⟨past', hpast', firstOf_of_hit helseIf⟩
  · have hif := hmiss n _ tail (atStart_newline ("else".toList.reverse ++ past))
    have hnone : elseIf.runWith call ⟨past, "else".toList ++ '\n' :: (textOf (no.lines n) ++ tail)⟩ = .miss :=
      miss_sequence (miss_seq_of_hit (hit_skip hspace) (miss_seq_of_hit (hit_skip hkeyword)
        (miss_seq_of_hit (hit_skip hrequired) (miss_seq hif))))
    obtain ⟨stop, hstop⟩ := hno n [] (tail.takeWhile isBlank) rfl atStart_nil List.all_takeWhile
    refine ⟨_, (no.block n).atStart ('\n' :: ("else".toList.reverse ++ past)), ?_⟩
    exact (firstOf_of_miss hnone).trans (firstOf_of_hit (hit_subBlock hstill hword hpast (no.block n) htail hstop))

/-- What comes before the first branch of a condition is passed with the node of the condition. -/
theorem hit_upToThen {s : Text} {condition : Node} {ps : List (Parser Node)} {values : List Node} {d : Cursor}
    {past t : Text} (hs : NoThen s) (hvisible : ∀ rest, (s ++ rest).head?.all (!isBlank ·))
    (hcondition : ∃ stop, call .expr (.start (s ++ [' '])) = .hit stop condition) (hpast : Gap past) (ht : Gap t)
    (hps : (gather ps).runWith call ⟨"then".toList.reverse ++
      ((s ++ [' ']).reverse ++ ([' '].reverse ++ ("if".toList.reverse ++ past))), t⟩ = .hit d values) :
    (gather (skip (keyword "if") :: skip spaceRequired ::
        twoPass (scan (.untilKeyword "then".toList)) Grammar.nestedExpr :: skip (keyword "then") :: ps)).runWith call
      ⟨past, "if".toList ++ ([' '] ++ (s ++ [' '] ++ ("then".toList ++ t)))⟩ =
        .hit d (.ignore :: .ignore :: condition :: .ignore :: values) := by
  obtain ⟨stop, hstop⟩ := hcondition
  have hif : (keyword "if").runWith call ⟨past, "if".toList ++ ([' '] ++ (s ++ [' '] ++ ("then".toList ++ t)))⟩ = _ :=
    hit_keyword_append (matchesWord_self (word_of_mem_reserved (by decide)) hpast (gap_blank _))
  have hspace : spaceRequired.runWith call ⟨"if".toList.reverse ++ past,
      [' '] ++ (s ++ [' '] ++ ("then".toList ++ t))⟩ = .hit _ () := hit_spaceRequired rfl
  rw [skipWhile_append _ (List.all_eq_true.mp rfl) (by simpa using hvisible ([' '] ++ ("then".toList ++ t)))] at hspace
  have huntil : (twoPass (scan (.untilKeyword "then".toList)) Grammar.nestedExpr).runWith call
      ⟨[' '].reverse ++ ("if".toList.reverse ++ past), s ++ [' '] ++ ("then".toList ++ t)⟩ = _ :=
    hit_twoPass (hit_untilThen hs (apart_blank _) ht) hstop
  have hthen : (keyword "then").runWith call ⟨(s ++ [' ']).reverse ++
      ([' '].reverse ++ ("if".toList.reverse ++ past)), "then".toList ++ t⟩ = _ :=
    hit_keyword_append (matchesWord_self word_then (gap_concat _ _) ht)
  exact hit_gather_cons (hit_skip hif) (hit_gather_cons (hit_skip hspace)
    (hit_gather_cons huntil (hit_gather_cons (hit_skip hthen) hps)))

/-- What comes before the first branch of a condition on names is passed with their call. -/
theorem hit_ifLine {ws : List Text} {ps : List (Parser Node)} {values : List Node} {d : Cursor} {past t : Text}
    (hws : ∀ w ∈ ws, Word w ∧ "then".toList ≠ w) (hne : ws ≠ [])
    (hcondition : ∃ stop, call .expr (.start ([' '].intercalate ws ++ [' '])) = .hit stop (.call ws))
    (hpast : Gap past) (ht : Gap t) (hps : (gather ps).runWith call ⟨"then".toList.reverse ++
      (([' '].intercalate ws ++ [' ']).reverse ++ ([' '].reverse ++ ("if".toList.reverse ++ past))), t⟩ = .hit d values) :
    (gather (skip (keyword "if") :: skip spaceRequired ::
        twoPass (scan (.untilKeyword "then".toList)) Grammar.nestedExpr :: skip (keyword "then") :: ps)).runWith call
      ⟨past, "if".toList ++ ([' '] ++ ([' '].intercalate ws ++ [' '] ++ ("then".toList ++ t)))⟩ =
        .hit d (.ignore :: .ignore :: .call ws :: .ignore :: values) := by
  refine hit_upToThen (noThen_words hws) (fun rest => ?_) hcondition hpast ht hps
  obtain ⟨w, ws, rfl⟩ := List.exists_cons_of_ne_nil hne
  rw [intercalate_cons, List.append_assoc]
  exact (hws w List.mem_cons_self).1.head?_not_isBlank _

/-- The first branch of a condition is what comes before the `else` that belongs to it. -/
theorem hit_yesBranch {yes : Expr} (hyes : Parses call yes) (m : Nat) (past : Text) {t : Text} (ht : Gap t) :
    (twoPass (scan (.untilBalanced "if".toList "else".toList)) Grammar.nestedExpr).runWith call
        ⟨past, ['\n'] ++ (textOf (yes.lines n) ++ spaces m) ++ ("else".toList ++ t)⟩ =
      .hit ⟨(['\n'] ++ (textOf (yes.lines n) ++ spaces m)).reverse ++ past, "else".toList ++ t⟩ yes.node := by
  obtain ⟨stop, hstop⟩ := hyes n ['\n'] (spaces m) (by decide) (atStart_newline []) (all_isBlank_spaces m)
  have hplace := closingPlace?_branch yes m n past ht.apart
  rw [← List.append_assoc] at hplace
  exact hit_twoPass (hit_scan_append hplace) hstop

/-- A condition is read up to a line that is less far in than its branches. -/
theorem reads_ifThenElse {condition : Names} {yes no : Expr}
    (hcondition : ∃ stop, call .expr (.start (condition.text ++ [' '])) = .hit stop (.call condition.texts))
    (hyes : Parses call yes) (hno : Parses call no) (helse : ElseIf call no) :
    Reads call Grammar.ifThenElse (n + 4) ((Expr.ifThenElse condition yes no).lines n)
      (Expr.ifThenElse condition yes no).node := by
  intro past tail hpast htail
  have hopens : opening past (textOf ((Expr.ifThenElse condition yes no).lines n) ++ tail) =
      ⟨spaces n ++ past, "if".toList ++ ([' '] ++ (condition.text ++ [' '] ++ ("then".toList ++ '\n' ::
        (textOf (yes.lines (n + 4)) ++ spaces n ++
          ("else".toList ++ '\n' :: (textOf (no.lines (n + 4)) ++ tail))))))⟩ := by
    rw [Expr.lines, opening_line (tidy_if n condition)]
    simp [Line.content, Line.text_eq, Names.texts, intercalate_cons, Names.text_eq]
  generalize hthen : "then".toList.reverse ++ ((condition.text ++ [' ']).reverse ++
      ([' '].reverse ++ ("if".toList.reverse ++ (spaces n ++ past)))) = past₁
  have hfirst := hit_yesBranch (n := n + 4) hyes n past₁ (gap_newline (textOf (no.lines (n + 4)) ++ tail))
  have hgap : Gap ((['\n'] ++ (textOf (yes.lines (n + 4)) ++ spaces n)).reverse ++ past₁) := by
    have hstart := (yes.block (n + 4)).atStart ('\n' :: past₁)
    have hspaces := gap_spaces n hstart
    simpa using hspaces
  obtain ⟨past', hpast', hsecond⟩ := hit_elseBranch hno helse hgap htail
  have hbranches := hit_gather_cons hfirst (hit_gather_cons hsecond hit_gather_nil)
  rw [← hthen] at hbranches
  refine ⟨past', hpast', ?_⟩
  rw [hopens]
  have hthen (w : Text) (hw : w ∈ condition.texts) : Word w ∧ "then".toList ≠ w := by
    refine ⟨condition.word w hw, ?_⟩
    obtain ⟨i, -, rfl⟩ := List.mem_map.mp hw
    exact i.ne_of_mem_reserved (by decide)
  refine hit_assemble (hit_sequence (hit_ifLine hthen (by simp [Names.texts]) hcondition (gap_spaces n hpast)
    (gap_newline _) hbranches)) ?_
  cases yes <;> cases no <;> rfl

end Compounds

end Canonical

end Offside
