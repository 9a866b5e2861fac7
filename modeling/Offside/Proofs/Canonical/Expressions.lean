import Offside.Proofs.Canonical.Compounds
import Offside.Proofs.Parser.Nesting

/-!
# Expressions

The rule for expressions gives the node of every expression that is nested no more deeply than rules may be. A step of
the nesting goes from the parts of an expression to the expression.
-/

namespace Offside

namespace Canonical

open Offside.Parser Cursor

variable {call : Rule → Cursor → Outcome Node}

/-! ## Alternatives that do not match -/

theorem miss_letIn {c : Cursor} (h : (c.skipWhile isBlank).matchesWord "let".toList = false) :
    Grammar.letIn.runWith call c = .miss :=
  miss_assemble (miss_sequence (miss_seq (miss_seq (miss_seq_of_hit hit_spaceOptional (miss_keyword h)))))

theorem miss_ifThenElse {c : Cursor} (h : c.matchesWord "if".toList = false) :
    Grammar.ifThenElse.runWith call c = .miss :=
  miss_assemble (miss_sequence (miss_seq (miss_skip (miss_keyword h))))

theorem miss_caseOf {c : Cursor} (h : c.matchesWord "case".toList = false) : Grammar.caseOf.runWith call c = .miss :=
  miss_assemble (miss_sequence (miss_seq (miss_assemble (miss_sequence (miss_seq (miss_skip (miss_keyword h)))))))

theorem miss_tuple {c : Cursor} (h : c.next?.any isWordChar) : Grammar.tuple.runWith call c = .miss :=
  miss_assemble (miss_sequence (miss_seq (miss_skip (miss_keyword (matchesWord_of_next h (by decide))))))

/-- What an expression may be, after the noise before it. -/
def alternatives : List (Parser Node) :=
  [Grammar.letIn, Grammar.ifThenElse, Grammar.caseOf, Grammar.tuple, Grammar.call, Grammar.unparsed]

/-- An expression is what matches where the noise ends. -/
theorem hit_expr {c d e : Cursor} {v : Node} (hnoise : Grammar.skipNoise.runWith call c = .hit d ())
    (h : (firstOf alternatives).runWith call d = .hit e v) (hv : v.isIgnore = false) :
    Grammar.expr.runWith call c = .hit e v := by
  have hsequence := hit_sequence (hit_gather_cons (hit_skip hnoise) (hit_gather_cons h hit_gather_nil))
  rw [Node.collapse_ignore, if_neg (by simp [hv])] at hsequence
  exact hsequence

/-! ## Calls -/

/-- Where no other rule for an expression matches, arguments are a call if they go on to the end of the text; if not, the
text is not understood. -/
theorem hit_expr_arguments {c : Cursor} {past t rest : Text} {ws : List Text}
    (hnoise : Grammar.skipNoise.runWith call c = .hit ⟨past, t⟩ ())
    (hword : ∀ kw ∈ ["let", "if", "case"], (Cursor.mk past t).matchesWord kw.toList = false)
    (htuple : Grammar.tuple.runWith call ⟨past, t⟩ = .miss) (hvisible : t.head?.all (!isBlank ·))
    (hrow : Text.Row ws t rest) (hrest : rest.Stuck) (hne : ws ≠ []) :
    Grammar.expr.runWith call c =
      .hit ⟨t.reverse ++ past, []⟩ (if rest = [] then .call ws else .unparsed t.trim) := by
  have hlet : ((Cursor.mk past t).skipWhile isBlank).matchesWord "let".toList = false := by
    rw [skipWhile_eq_self hvisible]
    exact hword _ (by decide)
  have hfirst : (firstOf alternatives).runWith call ⟨past, t⟩ =
      (firstOf [Grammar.call, Grammar.unparsed]).runWith call ⟨past, t⟩ := by
    rw [alternatives, firstOf_of_miss (miss_letIn hlet), firstOf_of_miss (miss_ifThenElse (hword _ (by decide))),
      firstOf_of_miss (miss_caseOf (hword _ (by decide))), firstOf_of_miss htuple]
  refine hit_expr hnoise (hfirst.trans ?_) (by split <;> rfl)
  split
  · next hend =>
    subst hend
    exact firstOf_of_hit (Grammar.hit_call hrow hne past)
  · next hend =>
    rw [firstOf_of_miss (Grammar.miss_call hrow hrest (Or.inr hend) past), firstOf_singleton]
    exact hit_assemble hit_grab_untilEnd rfl

/-- Arguments that begin with a word, after blanks, are a call if they go on to the end of the text; if not, the text is
not understood. -/
theorem hit_expr_word {w : Text} {ws : List Text} (hw : Word w)
    (hne : ∀ kw ∈ ["let", "if", "case", "module", "import"].map String.toList, kw ≠ w) {c : Cursor} {past t rest : Text}
    (hc : c.skipWhile isBlank = ⟨past, w ++ t⟩) (hpast : Gap past) (ht : t.head?.all (!isTokenChar ·)) (hcolon : NoColon t)
    (hrow : Text.Row (w :: ws) (w ++ t) rest) (hrest : rest.Stuck) :
    Grammar.expr.runWith call c =
      .hit ⟨(w ++ t).reverse ++ past, []⟩ (if rest = [] then .call (w :: ws) else .unparsed (w ++ t).trim) := by
  have hother {kw : Text} (hkw : kw ∈ ["let", "if", "case", "module", "import"].map String.toList) :
      (Cursor.mk past (w ++ t)).matchesWord kw = false := by
    have hreserved : ∀ kw ∈ ["let", "if", "case", "module", "import"].map String.toList, kw ∈ reserved := by decide
    exact matchesWord_of_ne (word_of_mem_reserved (hreserved kw hkw)) hw.2 hpast.apart (apart_of_not_isTokenChar ht)
      (hne kw hkw)
  refine hit_expr_arguments (hit_skipNoise hc hw (hne _ (by decide)) (hne _ (by decide)) hpast ht hcolon) (fun kw hkw => ?_)
    (miss_tuple (hw.head? t)) (hw.head?_not_isBlank t) hrow hrest (by simp)
  have hkeyword : ∀ kw ∈ ["let", "if", "case"],
      kw.toList ∈ ["let", "if", "case", "module", "import"].map String.toList := by decide
  exact hother (hkeyword kw hkw)

/-- Words that are all of a text, with blanks around them, are a call, if the first begins nothing else. -/
theorem hit_expr_words {w : Text} {ws : List Text} (hw : Word w) (hws : ∀ w ∈ ws, Word w)
    (hne : ∀ kw ∈ ["let", "if", "case", "module", "import"].map String.toList, kw ≠ w) {c : Cursor} {past t : Text}
    (hc : c.skipWhile isBlank = ⟨past, w ++ ws.flatMap (' ' :: ·) ++ t⟩) (hpast : Gap past) (ht : t.all isBlank) :
    Grammar.expr.runWith call c = .hit ⟨t.reverse ++ ((w ++ ws.flatMap (' ' :: ·)).reverse ++ past), []⟩ (.call (w :: ws)) := by
  have hgap := gap_words ws (gap_of_all ht)
  have hcolon := noColon_words (fun w hw => (hws w hw).lexeme) (Or.inr (noColon_of_all ht))
  have hrow : Text.Row (w :: ws) ([] ++ (w ++ (ws.flatMap (' ' :: ·) ++ t))) [] :=
    .argument rfl (leads_word hw hgap) (row_words hws ht)
  rw [List.append_assoc] at hc
  have hcall : Grammar.expr.runWith call c = _ :=
    hit_expr_word hw hne hc hpast hgap.head?_not_isTokenChar hcolon hrow Text.stuck_nil
  rw [hcall]
  simp [List.reverse_append]

/-- Names that are all of a text, with blanks around them, are a call. -/
theorem hit_expr_names (names : Names) {c : Cursor} {past t : Text} (hc : c.skipWhile isBlank = ⟨past, names.text ++ t⟩)
    (hpast : Gap past) (ht : t.all isBlank) : ∃ stop, Grammar.expr.runWith call c = .hit stop (.call names.texts) := by
  obtain ⟨hfirst, hmore⟩ := List.forall_mem_cons.mp names.word
  have hreserved : ∀ kw ∈ ["let", "if", "case", "module", "import"].map String.toList, kw ∈ reserved := by decide
  rw [Names.text_eq] at hc
  exact ⟨_, hit_expr_words hfirst hmore (fun kw hkw => names.first.ne_of_mem_reserved (hreserved kw hkw)) hc hpast ht⟩

/-! ## Expressions of several lines -/

/-- An expression of which a rule among the alternatives reads the lines, and at which those before it miss, is given its
node. -/
theorem parses_of_reads {e : Expr} {p : Parser Node} (hreads : ∀ n, Reads call p (n + 4) (e.lines n) e.node)
    (hfirst : ∀ n past tail stop, AtStart past →
      p.runWith call (opening past (textOf (e.lines n) ++ tail)) = .hit stop e.node →
      (firstOf alternatives).runWith call (opening past (textOf (e.lines n) ++ tail)) = .hit stop e.node) :
    Parses (fun r c => r.body.runWith call c) e := by
  intro n lead tail hlead hstart htail
  obtain ⟨past', -, hhit⟩ := hreads n lead.reverse tail hstart (closes_of_all htail)
  have hopens : (Cursor.start (lead ++ (textOf (e.lines n) ++ tail))).skipWhile isBlank =
      opening lead.reverse (textOf (e.lines n) ++ tail) := by
    rw [Cursor.start, skipWhile_append_of_all [] (List.all_eq_true.mp hlead), List.append_nil, opening]
  have hnoise : Grammar.skipNoise.runWith call (.start (lead ++ (textOf (e.lines n) ++ tail))) = .hit _ () :=
    Grammar.skipNoise_eq_hit _ call
  rw [noiseStop_block hopens (e.block n) hstart htail] at hnoise
  exact ⟨_, hit_expr hnoise (hfirst n _ tail _ hstart hhit) e.node_isIgnore⟩

/-- Where a block that begins with a reserved word opens, no other reserved word comes next. -/
theorem matchesWord_opening {n : Nat} {w kw : Text} {ws : List Text} {ls : List Line} {past tail : Text}
    (hl : (Line.mk n (w :: ws)).Tidy) (hw : Word w) (hkw : kw ∈ reserved) (hne : kw ≠ w) (hpast : AtStart past) :
    (opening past (textOf (⟨n, w :: ws⟩ :: ls) ++ tail)).matchesWord kw = false := by
  rw [opening_cons hl]
  exact matchesWord_other hw (gap_spaces n hpast) (gap_words ws (gap_newline _)) hkw hne

/-- Rules that run the given rules where they refer to rules. -/
def deeper (call : Rule → Cursor → Outcome Node) : Rule → Cursor → Outcome Node :=
  fun r c => r.body.runWith call c

theorem parses_call (names : Names) : Parses (deeper call) (.call names) := by
  intro n lead tail hlead hstart htail
  have htext : lead ++ (textOf ((Expr.call names).lines n) ++ tail) =
      (lead ++ spaces n) ++ (names.text ++ '\n' :: tail) := by
    simp [Expr.lines, Line.text_eq, Line.content, Names.text]
  have hvisible : (names.text ++ '\n' :: tail).head?.all (!isBlank ·) := by
    rw [Names.text_eq, List.append_assoc]
    exact names.first.word.head?_not_isBlank _
  have hblank : ∀ ch ∈ lead ++ spaces n, isBlank ch := by
    rw [← List.all_eq_true, List.all_append, hlead, all_isBlank_spaces]
    rfl
  have hskip := skipWhile_append [] hblank hvisible
  rw [← htext, List.reverse_append, reverse_spaces, List.append_nil] at hskip
  have htail' : ('\n' :: tail).all isBlank := by
    rw [List.all_cons, htail]
    rfl
  exact hit_expr_names names hskip (gap_spaces n hstart) htail'

theorem parses_letIn {first : Definition} {more : List Definition} {body : Expr}
    (hbindings : ∀ d ∈ first :: more, Parses call d.body) (hbody : Parses call body) :
    Parses (deeper call) (.letIn first more body) :=
  parses_of_reads (fun _ => reads_letIn hbindings hbody) fun _ _ _ _ _ hhit => firstOf_of_hit hhit

theorem parses_ifThenElse {condition : Names} {yes no : Expr}
    (hcondition : ∃ stop, call .expr (.start (condition.text ++ [' '])) = .hit stop (.call condition.texts))
    (hyes : Parses call yes) (hno : Parses call no) (helse : ElseIf call no) :
    Parses (deeper call) (.ifThenElse condition yes no) := by
  refine parses_of_reads (fun _ => reads_ifThenElse hcondition hyes hno helse) fun n past tail stop hpast hhit => ?_
  have hif := word_of_mem_reserved (w := "if".toList) (by decide)
  have hlet : (opening past (textOf ((Expr.ifThenElse condition yes no).lines n) ++ tail)).matchesWord "let".toList =
      false := by
    rw [Expr.lines]
    exact matchesWord_opening (tidy_if n condition) hif (by decide) (by decide) hpast
  rw [alternatives, firstOf_of_miss (miss_letIn (by rwa [opening, skipWhile_skipWhile]))]
  exact firstOf_of_hit hhit

theorem parses_caseOf {subject : Names} {first : Branch} {more : List Branch}
    (h : ∀ b ∈ first :: more, Parses call b.body) : Parses (deeper call) (.caseOf subject first more) := by
  refine parses_of_reads (fun _ => reads_caseOf h) fun n past tail stop hpast hhit => ?_
  have hcase := word_of_mem_reserved (w := "case".toList) (by decide)
  have hother {kw : Text} (hkw : kw ∈ reserved) (hne : kw ≠ "case".toList) :
      (opening past (textOf ((Expr.caseOf subject first more).lines n) ++ tail)).matchesWord kw = false := by
    rw [Expr.lines_caseOf]
    exact matchesWord_opening (tidy_case n subject) hcase hkw hne hpast
  have hlet : Grammar.letIn.runWith call (opening past (textOf ((Expr.caseOf subject first more).lines n) ++ tail)) =
      .miss := by
    refine miss_letIn ?_
    rw [opening, skipWhile_skipWhile]
    exact hother (by decide) (by decide)
  rw [alternatives, firstOf_of_miss hlet, firstOf_of_miss (miss_ifThenElse (hother (by decide) (by decide)))]
  exact firstOf_of_hit hhit

/-! ## The second branch of a condition -/

theorem elseIf_ifThenElse {condition : Names} {yes no : Expr}
    (hcondition : ∃ stop, call .expr (.start (condition.text ++ [' '])) = .hit stop (.call condition.texts))
    (hyes : Parses call yes) (hno : Parses call no) (helse : ElseIf call no) :
    ElseIf (deeper call) (.ifThenElse condition yes no) :=
  Or.inl fun _ => reads_ifThenElse hcondition hyes hno helse

/-- An expression whose first word is not `if` is no condition. -/
theorem elseIf_of_ne {e : Expr}
    (h : ∀ n, ∃ w ws ls, e.lines n = ⟨n, w :: ws⟩ :: ls ∧ Word w ∧ "if".toList ≠ w) : ElseIf (deeper call) e := by
  refine Or.inr fun n past tail hpast => ?_
  obtain ⟨w, ws, ls, hlines, hw, hne⟩ := h n
  have htidy : (Line.mk n (w :: ws)).Tidy := by
    have hwithin := e.within n
    rw [hlines] at hwithin
    exact (List.forall_mem_cons.mp hwithin).1.1
  rw [hlines]
  exact miss_ifThenElse (matchesWord_opening htidy hw (by decide) hne hpast)

theorem elseIf_call (names : Names) : ElseIf (deeper call) (.call names) :=
  elseIf_of_ne fun _ => ⟨_, _, _, rfl, names.first.word, names.first.ne_of_mem_reserved (by decide)⟩

theorem elseIf_letIn (first : Definition) (more : List Definition) (body : Expr) :
    ElseIf (deeper call) (.letIn first more body) :=
  elseIf_of_ne fun _ => ⟨_, _, _, rfl, word_of_mem_reserved (by decide), by decide⟩

theorem elseIf_caseOf (subject : Names) (first : Branch) (more : List Branch) :
    ElseIf (deeper call) (.caseOf subject first more) :=
  elseIf_of_ne fun _ => ⟨_, _, _, rfl, word_of_mem_reserved (by decide), by decide⟩

/-! ## Completeness -/

/-- The rules give the nodes of all expressions that are nested at most so deeply. -/
structure Complete (call : Rule → Cursor → Outcome Node) (depth : Nat) : Prop where
  /-- The rule for expressions does wherever their lines are all of a text. -/
  parses : ∀ e : Expr, e.height ≤ depth → Parses call e
  /-- The rule for expressions does for the names between `if` and `then`. -/
  condition : 0 < depth → ∀ names : Names,
    ∃ stop, call .expr (.start (names.text ++ [' '])) = .hit stop (.call names.texts)
  /-- The rule for conditions does after an `else`, or it does not match. -/
  elseIf : ∀ e : Expr, e.height ≤ depth → ElseIf call e

section Height

variable {depth : Nat}

theorem height_of_ifThenElse {condition : Names} {yes no : Expr}
    (h : (Expr.ifThenElse condition yes no).height ≤ depth + 1) : yes.height ≤ depth ∧ no.height ≤ depth := by
  rw [Expr.height] at h
  omega

theorem height_of_letIn {first : Definition} {more : List Definition} {body : Expr}
    (h : (Expr.letIn first more body).height ≤ depth + 1) :
    (∀ d ∈ first :: more, d.body.height ≤ depth) ∧ body.height ≤ depth := by
  rw [Expr.height, ← Definition.maxHeight] at h
  constructor
  · intro d hd
    have hle := Definition.height_le_maxHeight hd
    rw [Definition.height_eq] at hle
    omega
  · omega

theorem height_of_caseOf {subject : Names} {first : Branch} {more : List Branch}
    (h : (Expr.caseOf subject first more).height ≤ depth + 1) : ∀ b ∈ first :: more, b.body.height ≤ depth := by
  rw [Expr.height, ← Branch.maxHeight] at h
  intro b hb
  have hle := Branch.height_le_maxHeight hb
  rw [Branch.height_eq] at hle
  omega

end Height

/-- One more level of rules is complete for one more level of expressions. -/
theorem Complete.deeper {depth : Nat} (h : Complete call depth) : Complete (deeper call) (depth + 1) where
  parses e he := by
    cases e with
    | call names => exact parses_call names
    | ifThenElse condition yes no =>
      obtain ⟨hyes, hno⟩ := height_of_ifThenElse he
      have hpos := Nat.lt_of_lt_of_le yes.height_pos hyes
      exact parses_ifThenElse (h.condition hpos condition) (h.parses yes hyes) (h.parses no hno) (h.elseIf no hno)
    | letIn first more body =>
      obtain ⟨hbindings, hbody⟩ := height_of_letIn he
      exact parses_letIn (fun d hd => h.parses d.body (hbindings d hd)) (h.parses body hbody)
    | caseOf subject first more =>
      have harms := height_of_caseOf he
      exact parses_caseOf fun b hb => h.parses b.body (harms b hb)
  condition := by
    intro _ names
    have hvisible : (names.text ++ [' ']).head?.all (!isBlank ·) := by
      rw [Names.text_eq, List.append_assoc]
      exact names.first.word.head?_not_isBlank _
    exact hit_expr_names names (skipWhile_eq_self hvisible) gap_nil (by decide)
  elseIf e he := by
    cases e with
    | call names => exact elseIf_call names
    | ifThenElse condition yes no =>
      obtain ⟨hyes, hno⟩ := height_of_ifThenElse he
      have hpos := Nat.lt_of_lt_of_le yes.height_pos hyes
      exact elseIf_ifThenElse (h.condition hpos condition) (h.parses yes hyes) (h.parses no hno) (h.elseIf no hno)
    | letIn first more body => exact elseIf_letIn first more body
    | caseOf subject first more => exact elseIf_caseOf subject first more

/-- Rules that are nested so deeply are complete for expressions that are. -/
theorem complete_run (depth : Nat) : Complete (Rule.run depth) depth := by
  induction depth with
  | zero =>
    have hnone (e : Expr) (he : e.height ≤ 0) : False := Nat.not_lt_of_le he e.height_pos
    exact ⟨fun e he => (hnone e he).elim, fun h => absurd h (Nat.lt_irrefl 0), fun e he => (hnone e he).elim⟩
  | succ depth ih => exact ih.deeper

end Canonical

end Offside
