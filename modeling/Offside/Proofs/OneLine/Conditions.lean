import Offside.Node.Display
import Offside.Proofs.Canonical.Expressions
import Offside.Proofs.Parser.Inversion

/-!
# Conditions on one line

The display of a call or of a condition is one line of words with a blank between every two. A condition may stand in
either branch of another, or in both: the search for the `else` of a condition goes past those of the conditions in its
first branch, and the rule for conditions takes one in its second branch from where it stands. So the display is read back
as the node it shows, `display_parses_back`.
-/

namespace Offside

namespace OneLine

open Offside.Parser Cursor Canonical

/-! ## Trees -/

/-- The words that mean something in an expression or at the beginning of a header. -/
def keywords : List Text :=
  ["if", "then", "else", "let", "in", "case", "of", "module", "import"].map String.toList

/-- One name or more; a name is a word that is no keyword. -/
structure Names where
  /-- The names. -/
  texts : List Text
  /-- There are some. -/
  texts_ne_nil : texts ≠ []
  /-- They are words of letters, digits and `_`. -/
  word : ∀ w ∈ texts, Word w
  /-- They are no keywords. -/
  not_keyword : ∀ w ∈ texts, w ∉ keywords

/-- A call, or a condition with trees for branches. -/
inductive Tree where
  /-- A function and its arguments, or a single name. -/
  | call (names : Names)
  /-- A condition, which is a call, and two branches. -/
  | ifThenElse (condition : Names) (yes no : Tree)

/-- The node that a tree stands for. -/
def Tree.node : Tree → Node
  | .call names => .call names.texts
  | .ifThenElse condition yes no => .ifThenElse (.call condition.texts) yes.node no.node

/-- How deeply conditions are nested, a call counted as one. -/
def Tree.height : Tree → Nat
  | .call _ => 1
  | .ifThenElse _ yes no => max yes.height no.height + 1

theorem Tree.height_pos (e : Tree) : 0 < e.height := by
  cases e with
  | call names => exact Nat.one_pos
  | ifThenElse condition yes no => exact Nat.succ_pos _

theorem Names.ne_of_mem_keywords (names : Names) {kw : Text} (h : kw ∈ keywords) : ∀ w ∈ names.texts, kw ≠ w := by
  rintro w hw rfl
  exact names.not_keyword kw hw h

theorem Tree.node_isIgnore (e : Tree) : e.node.isIgnore = false := by
  cases e <;> rfl

/-! ## The display of a tree -/

theorem Tree.display_call (names : Names) : (Tree.call names).node.display = [' '].intercalate names.texts := rfl

theorem Tree.display_ifThenElse (condition : Names) (yes no : Tree) :
    (Tree.ifThenElse condition yes no).node.display =
      "if".toList ++ ([' '] ++ ([' '].intercalate condition.texts ++ [' '] ++ ("then".toList ++
        ([' '] ++ (yes.node.display ++ [' ']) ++ ("else".toList ++ ([' '] ++ no.node.display)))))) := by
  have hdisplay : (Tree.ifThenElse condition yes no).node.display =
      ("if".toList ++ [' ']) ++ [' '].intercalate condition.texts ++ ([' '] ++ "then".toList ++ [' ']) ++ yes.node.display ++
        ([' '] ++ "else".toList ++ [' ']) ++ no.node.display := rfl
  rw [hdisplay]
  simp only [List.append_assoc]

/-- A tree is displayed with a word first. -/
theorem Tree.exists_word (e : Tree) : ∃ w t, e.node.display = w ++ t ∧ Word w := by
  cases e with
  | call names =>
    obtain ⟨w, ws, hws⟩ := List.exists_cons_of_ne_nil names.texts_ne_nil
    refine ⟨w, ws.flatMap (' ' :: ·), ?_, names.word w (by simp [hws])⟩
    rw [display_call, hws, intercalate_cons]
  | ifThenElse condition yes no => exact ⟨"if".toList, _, display_ifThenElse condition yes no, word_if⟩

theorem Tree.head?_display (e : Tree) (t : Text) : (e.node.display ++ t).head?.all (!isBlank ·) := by
  obtain ⟨w, s, hdisplay, hw⟩ := e.exists_word
  rw [hdisplay, List.append_assoc]
  exact hw.head?_not_isBlank _

theorem newline_not_mem_word {w : Text} (hw : Word w) : '\n' ∉ w := fun hmem =>
  absurd (hw.2 '\n' hmem) (by decide)

theorem newline_not_mem_intercalate {ws : List Text} (hws : ∀ w ∈ ws, Word w) : '\n' ∉ [' '].intercalate ws := by
  cases ws with
  | nil => simp
  | cons w ws =>
    obtain ⟨hw, hws'⟩ := List.forall_mem_cons.mp hws
    rw [intercalate_cons, List.mem_append, List.mem_flatMap]
    rintro (hmem | ⟨w', hw', hmem⟩)
    · exact newline_not_mem_word hw hmem
    · rcases List.mem_cons.mp hmem with hblank | hmem
      · cases hblank
      · exact newline_not_mem_word (hws' w' hw') hmem

/-- The display of a tree is one line. -/
theorem Tree.newline_not_mem_display (e : Tree) : '\n' ∉ e.node.display := by
  induction e with
  | call names => exact newline_not_mem_intercalate names.word
  | ifThenElse condition yes no ihyes ihno =>
    have hcondition := newline_not_mem_intercalate condition.word
    have hif : '\n' ∉ "if".toList := by decide
    have hthen : '\n' ∉ "then".toList := by decide
    have helse : '\n' ∉ "else".toList := by decide
    have hblank : '\n' ∉ [' '] := by decide
    simp only [display_ifThenElse, List.mem_append, hcondition, hif, hthen, helse, hblank, ihyes, ihno, or_self,
      not_false_eq_true]

/-- The display of a tree has a character for every level of nesting. -/
theorem Tree.height_le_length (e : Tree) : e.height ≤ e.node.display.length := by
  induction e with
  | call names =>
    obtain ⟨w, t, hdisplay, hw⟩ := (Tree.call names).exists_word
    have hpos := List.length_pos_iff.mpr hw.1
    rw [hdisplay, List.length_append, height]
    omega
  | ifThenElse condition yes no ihyes ihno =>
    simp only [display_ifThenElse, List.length_append, List.length_singleton, height]
    omega

/-! ## Conditions pair up -/

/-- What begins with no letter, digit or `_` stands apart. -/
theorem apart_of_not_word {s : Text} (hne : s ≠ []) (hs : ∀ ch ∈ s, isWordChar ch = false) (t : Text) : Apart (s ++ t) := by
  obtain ⟨ch, s, rfl⟩ := List.exists_cons_of_ne_nil hne
  simp [Apart, hs ch List.mem_cons_self]

/-- A word with something after it that has no letters, digits or `_` is passed as the word is. -/
theorem passes_wordThen {w s : Text} {depth depth' : Nat} (h : PassesWord w depth depth') (hne : s ≠ [])
    (hs : ∀ ch ∈ s, isWordChar ch = false) : Passes (w ++ s) depth depth' := by
  intro past hpast
  constructor
  · rw [List.reverse_append, List.append_assoc]
    exact apart_of_not_word (by simpa using hne) (fun ch hch => hs ch (List.mem_reverse.mp hch)) _
  · intro rest
    have hskip : closingPlace? "if".toList "else".toList (w.reverse ++ past) depth' (s ++ rest) = _ :=
      closingPlace?_append (free_of_not_word word_if hs) (free_of_not_word word_else hs)
    rw [List.append_assoc, h past (s ++ rest) hpast (apart_of_not_word hne hs rest), hskip, Option.map_map,
      List.reverse_append, List.append_assoc, List.length_append]
    congr 1
    funext n
    simp only [Function.comp_apply]
    omega

/-- A word with a blank after it is passed as the word is. -/
theorem passes_wordBlank {w : Text} {depth depth' : Nat} (h : PassesWord w depth depth') :
    Passes (w ++ [' ']) depth depth' :=
  passes_wordThen h (by simp) (not_isWordChar_of_any rfl)

/-- Words with a blank between every two and one more are words with a blank after each. -/
theorem intercalate_concat_blank {ws : List Text} (hne : ws ≠ []) :
    [' '].intercalate ws ++ [' '] = ws.flatMap (· ++ [' ']) := by
  obtain ⟨w, ws, rfl⟩ := List.exists_cons_of_ne_nil hne
  rw [intercalate_cons, List.append_assoc, flatMap_concat_blank, List.flatMap_cons, List.append_assoc]

/-- Words are passed that are passed with a blank after each. -/
theorem passes_words {ws : List Text} {depth : Nat} (hne : ws ≠ []) (h : ∀ w ∈ ws, Passes (w ++ [' ']) depth depth) :
    Passes ([' '].intercalate ws ++ [' ']) depth depth := by
  rw [intercalate_concat_blank hne]
  clear hne
  induction ws with
  | nil => exact passes_nil depth
  | cons w ws ih =>
    obtain ⟨hw, hws⟩ := List.forall_mem_cons.mp h
    rw [List.flatMap_cons]
    exact hw.append (ih hws)

/-- Names are passed. -/
theorem Names.passes (names : Names) (depth : Nat) : Passes ([' '].intercalate names.texts ++ [' ']) depth depth := by
  refine passes_words names.texts_ne_nil fun w hw => passes_wordBlank (Plain.passesWord ?_ depth)
  exact ⟨(names.word w hw).lexeme, names.ne_of_mem_keywords (by decide) w hw, names.ne_of_mem_keywords (by decide) w hw⟩

/-- In the display of a tree every `if` has its `else`. -/
theorem Tree.passes (e : Tree) (depth : Nat) : Passes (e.node.display ++ [' ']) depth depth := by
  induction e generalizing depth with
  | call names => exact names.passes depth
  | ifThenElse condition yes no ihyes ihno =>
    have hif := passes_wordBlank (passesWord_if depth)
    have hthen := passes_wordBlank (plain_then.passesWord (depth + 1))
    have helse := passes_wordBlank (passesWord_else depth)
    have hall := hif.append ((condition.passes (depth + 1)).append (hthen.append ((ihyes (depth + 1)).append
      (helse.append (ihno depth)))))
    rw [display_ifThenElse]
    simpa only [List.append_assoc] using hall

/-- The search for the `else` of a condition goes past what is between them, if every `if` there has its `else`. -/
theorem closingPlace?_passes {s : Text} (hs : Passes s 0 0) (past : Text) {rest : Text} (hrest : Apart rest) :
    closingPlace? "if".toList "else".toList past 0 ([' '] ++ s ++ ("else".toList ++ rest)) = some ([' '] ++ s).length := by
  have hblank : ∀ ch ∈ [' '], isWordChar ch = false := not_isWordChar_of_any rfl
  obtain ⟨hend, hskip⟩ := hs (' ' :: past) (apart_blank past)
  have hclose := closingPlace?_closer_zero word_else word_if (by decide) hend hrest
  rw [List.append_assoc, closingPlace?_append (free_of_not_word word_if hblank) (free_of_not_word word_else hblank),
    List.reverse_singleton, List.singleton_append, hskip, hclose]
  simp

/-! ## Bodies on the last line -/

/-- More than a comment is left of the last line where a word comes next, after blanks. -/
theorem not_bareLine_of_word {past s w t : Text} (hs : s.all isBlank) (hline : '\n' ∉ s ++ (w ++ t)) (hw : Word w) :
    Test.bareLine.holds ⟨past, s ++ (w ++ t)⟩ = false := by
  have hrest : (Cursor.mk past (s ++ (w ++ t))).restOfLine = s ++ (w ++ t) :=
    List.takeWhile_eq_self_iff.mpr (ne_newline_of_not_mem hline)
  obtain ⟨ch, w', rfl⟩ := List.exists_cons_of_ne_nil hw.1
  have hch := hw.2 ch List.mem_cons_self
  have hdrop : (s ++ (ch :: w' ++ t)).dropWhile isBlank = ch :: (w' ++ t) := by
    rw [List.dropWhile_append_of_pos (List.all_eq_true.mp hs)]
    exact (takeWhile_of_head? (hw.head?_not_isBlank t)).2
  obtain ⟨blanks, heq, hblanks⟩ := Text.exists_eq_trimEnd_append (ch :: (w' ++ t))
  rw [Test.holds, hrest, Text.trim, hdrop]
  cases htrim : Text.trimEnd (ch :: (w' ++ t)) with
  | nil =>
    -- Then the word would be blank.
    rw [htrim, List.nil_append] at heq
    rw [← heq, List.all_cons, isBlank_of_isWordChar hch] at hblanks
    cases hblanks
  | cons ch' more =>
    rw [htrim] at heq
    obtain rfl : ch = ch' := (List.cons.inj heq).1
    have hdash : ('-' == ch) = false := by
      rw [beq_eq_false_iff_ne]
      rintro rfl
      exact absurd hch (by decide)
    simp [List.isPrefixOf, hdash]

/-- The body beside a keyword on the only line is all that is left. -/
theorem body_of_oneLine {past s w t : Text} (hs : s.all isBlank) (hpast : '\n' ∉ past) (hline : '\n' ∉ s ++ (w ++ t))
    (hw : Word w) :
    (Cursor.mk past (s ++ (w ++ t))).Body (s ++ (w ++ t)) ⟨(s ++ (w ++ t)).reverse ++ past, []⟩ := by
  have hbare : Test.bareLine.holds ⟨past, s ++ (w ++ t)⟩ = false := not_bareLine_of_word hs hline hw
  obtain ⟨stop, hstop, hplace⟩ := exists_restOfBlock ⟨past, s ++ (w ++ t)⟩
  have hle := le_of_extentStop hstop
  have hdone : stop.isDone := by
    refine (hplace.resolve_left (visible_of_not_bareLine hbare)).resolve_right fun hbelow => ?_
    have hmem := hbelow.newline_mem hle
    rw [text_eq_of_le hle, text, List.mem_append, List.mem_reverse] at hmem
    exact hmem.elim hpast hline
  obtain rfl : stop = ⟨(s ++ (w ++ t)).reverse ++ past, []⟩ := by
    obtain ⟨passed, hrest, hbefore⟩ := hle
    rw [isDone_iff.mp hdone, List.append_nil] at hrest
    rw [Cursor.mk.injEq, hbefore, ← hrest]
    exact ⟨rfl, isDone_iff.mp hdone⟩
  have hno : ¬Test.bareLine.holds ⟨past, s ++ (w ++ t)⟩ := by simp [hbare]
  have hslice : (Cursor.mk past (s ++ (w ++ t) ++ [])).slice? ⟨(s ++ (w ++ t)).reverse ++ past, []⟩ = _ := slice?_append
  rw [List.append_nil] at hslice
  constructor
  · rw [bodyStop, if_neg hno, hstop]
  · rw [bodyStart, if_neg hno, hslice]

/-! ## Reading a display -/

/-- The rule for expressions gives the node of a tree whose display is all of a text, up to blanks around it. -/
def Parses (call : Rule → Cursor → Outcome Node) (e : Tree) : Prop :=
  ∀ m n, call .expr (.start (spaces m ++ (e.node.display ++ spaces n))) =
    .hit ⟨(spaces m ++ (e.node.display ++ spaces n)).reverse, []⟩ e.node

/-- The rule for conditions, after an `else`, reads a tree that is a condition and misses one that is none. -/
def ElseIf (call : Rule → Cursor → Outcome Node) (e : Tree) : Prop :=
  (∀ past n, Gap past → '\n' ∉ past → call .ifThenElse ⟨past, e.node.display ++ spaces n⟩ =
    .hit ⟨(e.node.display ++ spaces n).reverse ++ past, []⟩ e.node) ∨
  ∀ past n, Gap past → call .ifThenElse ⟨past, e.node.display ++ spaces n⟩ = .miss

section Reading

variable {call : Rule → Cursor → Outcome Node}

/-- What comes after `else` is read as the second branch, whatever it is, where it is no condition. -/
theorem hit_elseBranch_of_miss {w t past : Text} {v : Node} (hw : Word w) (hline : '\n' ∉ w ++ t)
    (hif : call .ifThenElse ⟨[' '].reverse ++ ("else".toList.reverse ++ past), w ++ t⟩ = .miss)
    (hexpr : ∃ stop, call .expr (.start ([' '] ++ (w ++ t))) = .hit stop v) (hpast : Gap past) (hpastLine : '\n' ∉ past) :
    (oneOf [elseIf, subBlock "else" Grammar.nestedExpr]).runWith call ⟨past, "else".toList ++ ([' '] ++ (w ++ t))⟩ =
      .hit ⟨([' '] ++ (w ++ t)).reverse ++ ("else".toList.reverse ++ past), []⟩ v := by
  obtain ⟨stop, hstop⟩ := hexpr
  have hstill : (Cursor.mk past ("else".toList ++ ([' '] ++ (w ++ t)))).skipWhile isBlank =
      ⟨past, "else".toList ++ ([' '] ++ (w ++ t))⟩ := skipWhile_eq_self (word_else.head?_not_isBlank _)
  have hmatch : (Cursor.mk past ("else".toList ++ ([' '] ++ (w ++ t)))).matchesWord "else".toList :=
    matchesWord_self word_else hpast (gap_blank _)
  have hspace : spaceOptional.runWith call ⟨past, "else".toList ++ ([' '] ++ (w ++ t))⟩ =
      .hit ⟨past, "else".toList ++ ([' '] ++ (w ++ t))⟩ () := by
    rw [hit_spaceOptional, hstill]
  have hkeyword : (keyword "else").runWith call ⟨past, "else".toList ++ ([' '] ++ (w ++ t))⟩ = _ :=
    hit_keyword_append hmatch
  have hrequired : spaceRequired.runWith call ⟨"else".toList.reverse ++ past, [' '] ++ (w ++ t)⟩ = .hit _ () :=
    hit_spaceRequired rfl
  rw [skipWhile_append _ (List.all_eq_true.mp rfl) (hw.head?_not_isBlank t)] at hrequired
  have hnone : elseIf.runWith call ⟨past, "else".toList ++ ([' '] ++ (w ++ t))⟩ = .miss :=
    miss_sequence (miss_seq_of_hit (hit_skip hspace) (miss_seq_of_hit (hit_skip hkeyword)
      (miss_seq_of_hit (hit_skip hrequired) (miss_seq hif))))
  have hbefore : '\n' ∉ "else".toList.reverse ++ past := by simpa using hpastLine
  have hall : '\n' ∉ [' '] ++ (w ++ t) := by
    rw [List.mem_append, not_or]
    exact ⟨by decide, hline⟩
  refine (firstOf_of_miss hnone).trans (firstOf_of_hit (hit_subBlock_iff.mpr ?_))
  rw [hstill, advance_length]
  exact ⟨hmatch, _, _, body_of_oneLine (by decide) hbefore hall hw, hstop⟩

/-- What comes after `else` is read as the second branch, whether it is a condition or not. -/
theorem hit_elseBranch {no : Tree} (hno : Parses call no) (helse : ElseIf call no) {past : Text} (hpast : Gap past)
    (hline : '\n' ∉ past) (n : Nat) :
    (oneOf [elseIf, subBlock "else" Grammar.nestedExpr]).runWith call
        ⟨past, "else".toList ++ ([' '] ++ (no.node.display ++ spaces n))⟩ =
      .hit ⟨([' '] ++ (no.node.display ++ spaces n)).reverse ++ ("else".toList.reverse ++ past), []⟩ no.node := by
  rcases helse with hreads | hmiss
  · have hstill : (Cursor.mk past ("else".toList ++ ([' '] ++ (no.node.display ++ spaces n)))).skipWhile isBlank =
        ⟨past, "else".toList ++ ([' '] ++ (no.node.display ++ spaces n))⟩ :=
      skipWhile_eq_self (word_else.head?_not_isBlank _)
    have hspace : spaceOptional.runWith call ⟨past, "else".toList ++ ([' '] ++ (no.node.display ++ spaces n))⟩ =
        .hit ⟨past, "else".toList ++ ([' '] ++ (no.node.display ++ spaces n))⟩ () := by
      rw [hit_spaceOptional, hstill]
    have hkeyword : (keyword "else").runWith call ⟨past, "else".toList ++ ([' '] ++ (no.node.display ++ spaces n))⟩ = _ :=
      hit_keyword_append (matchesWord_self word_else hpast (gap_blank _))
    have hrequired : spaceRequired.runWith call
        ⟨"else".toList.reverse ++ past, [' '] ++ (no.node.display ++ spaces n)⟩ = .hit _ () := hit_spaceRequired rfl
    rw [skipWhile_append _ (List.all_eq_true.mp rfl) (no.head?_display _)] at hrequired
    have hbefore : '\n' ∉ [' '].reverse ++ ("else".toList.reverse ++ past) := by
      simpa using hline
    have hif := hreads _ n (gap_blank ("else".toList.reverse ++ past)) hbefore
    have hcollapse : Node.collapse [.ignore, .ignore, .ignore, no.node] = no.node := by cases no <;> rfl
    have helseIf := hit_sequence (hit_gather_cons (hit_skip hspace) (hit_gather_cons (hit_skip hkeyword)
      (hit_gather_cons (hit_skip hrequired) (hit_gather_cons (p := ofRule "If" .ifThenElse) hif hit_gather_nil))))
    rw [hcollapse] at helseIf
    rw [List.reverse_append, List.append_assoc]
    exact firstOf_of_hit helseIf
  · have hif := hmiss _ n (gap_blank ("else".toList.reverse ++ past))
    have hexpr := hno 1 n
    obtain ⟨w, t, heq, hw⟩ := no.exists_word
    have hwhole : '\n' ∉ no.node.display ++ spaces n := by
      simp [no.newline_not_mem_display, newline_not_mem_spaces]
    rw [heq, List.append_assoc] at hif hexpr hwhole ⊢
    exact hit_elseBranch_of_miss hw hwhole hif ⟨_, hexpr⟩ hpast hline

/-- The first branch of a condition is what comes before the `else` that belongs to it. -/
theorem hit_yesBranch {s : Text} {yes : Node} (hs : Passes (s ++ [' ']) 0 0)
    (hyes : ∃ stop, call .expr (.start ([' '] ++ (s ++ [' ']))) = .hit stop yes) (past : Text) {t : Text} (ht : Gap t) :
    (twoPass (scan (.untilBalanced "if".toList "else".toList)) Grammar.nestedExpr).runWith call
        ⟨past, [' '] ++ (s ++ [' ']) ++ ("else".toList ++ t)⟩ =
      .hit ⟨([' '] ++ (s ++ [' '])).reverse ++ past, "else".toList ++ t⟩ yes := by
  obtain ⟨stop, hstop⟩ := hyes
  exact hit_twoPass (hit_scan_append (closingPlace?_passes hs past ht.apart)) hstop

/-- The rule for conditions reads a condition on one line, if what is between its words is read there. -/
theorem hit_condition {s u t past : Text} {condition yes no : Node} (hs : NoThen s)
    (hvisible : ∀ rest, (s ++ rest).head?.all (!isBlank ·))
    (hcondition : ∃ stop, call .expr (.start (s ++ [' '])) = .hit stop condition) (hu : Passes (u ++ [' ']) 0 0)
    (hyes : ∃ stop, call .expr (.start ([' '] ++ (u ++ [' ']))) = .hit stop yes)
    (hno : ∀ past, Gap past → '\n' ∉ past →
      (oneOf [elseIf, subBlock "else" Grammar.nestedExpr]).runWith call ⟨past, "else".toList ++ ([' '] ++ t)⟩ =
        .hit ⟨([' '] ++ t).reverse ++ ("else".toList.reverse ++ past), []⟩ no)
    (hvalues : condition.isIgnore = false ∧ yes.isIgnore = false ∧ no.isIgnore = false) (hpast : Gap past)
    (hline : '\n' ∉ past ∧ '\n' ∉ s ∧ '\n' ∉ u) :
    Grammar.ifThenElse.runWith call
        ⟨past, "if".toList ++ ([' '] ++ (s ++ [' '] ++ ("then".toList ++ ([' '] ++ (u ++ [' ']) ++
          ("else".toList ++ ([' '] ++ t))))))⟩ =
      .hit ⟨("if".toList ++ ([' '] ++ (s ++ [' '] ++ ("then".toList ++ ([' '] ++ (u ++ [' ']) ++
        ("else".toList ++ ([' '] ++ t))))))).reverse ++ past, []⟩ (.ifThenElse condition yes no) := by
  obtain ⟨hpastLine, hsLine, huLine⟩ := hline
  generalize hpast₁ : "then".toList.reverse ++ ((s ++ [' ']).reverse ++ ([' '].reverse ++ ("if".toList.reverse ++ past))) =
    past₁
  have hline₁ : '\n' ∉ ([' '] ++ (u ++ [' '])).reverse ++ past₁ := by
    simp [← hpast₁, hpastLine, hsLine, huLine]
  have hgap₁ : Gap (([' '] ++ (u ++ [' '])).reverse ++ past₁) := by
    rw [← List.append_assoc]
    exact gap_concat _ _
  have hfirst := hit_yesBranch hu hyes past₁ (gap_blank t)
  have hbranches := hit_gather_cons hfirst (hit_gather_cons (hno _ hgap₁ hline₁) hit_gather_nil)
  rw [← hpast₁] at hbranches
  have hgap : Gap ([' '] ++ (u ++ [' ']) ++ ("else".toList ++ ([' '] ++ t))) := gap_blank _
  have hall := hit_upToThen hs hvisible hcondition hpast hgap hbranches
  have hnode : Form.ifThenElse.assemble (Node.collapse [.ignore, .ignore, condition, .ignore, yes, no]) =
      .ok (.ifThenElse condition yes no) := by
    simp only [Node.collapse, List.filter, hvalues]
    rfl
  have hmatch := hit_assemble (hit_sequence hall) hnode
  simp only [List.reverse_append, List.append_assoc] at hmatch ⊢
  exact hmatch

/-- The rule for conditions reads the display of a condition that is the rest of a text, up to blanks after it. -/
theorem hit_ifThenElse {condition : Names} {yes no : Tree}
    (hcondition : ∃ stop, call .expr (.start ([' '].intercalate condition.texts ++ [' '])) =
      .hit stop (.call condition.texts))
    (hyes : Parses call yes) (hno : Parses call no) (helse : ElseIf call no) {past : Text} (hpast : Gap past)
    (hline : '\n' ∉ past) (n : Nat) :
    Grammar.ifThenElse.runWith call ⟨past, (Tree.ifThenElse condition yes no).node.display ++ spaces n⟩ =
      .hit ⟨((Tree.ifThenElse condition yes no).node.display ++ spaces n).reverse ++ past, []⟩
        (Tree.ifThenElse condition yes no).node := by
  have hthen : ∀ w ∈ condition.texts, Word w ∧ "then".toList ≠ w := fun w hw =>
    ⟨condition.word w hw, condition.ne_of_mem_keywords (by decide) w hw⟩
  have hmatch := hit_condition (noThen_words hthen) (Tree.call condition).head?_display hcondition (yes.passes 0)
    ⟨_, hyes 1 1⟩ (fun _ hgap hbefore => hit_elseBranch hno helse hgap hbefore n)
    ⟨rfl, yes.node_isIgnore, no.node_isIgnore⟩ hpast
    ⟨hline, newline_not_mem_intercalate condition.word, yes.newline_not_mem_display⟩
  simp only [Tree.display_ifThenElse, List.append_assoc] at hmatch ⊢
  exact hmatch

/-- A text that opens with `if` is the expression that the rule for conditions reads. -/
theorem hit_expr_if {c stop : Cursor} {past t : Text} {v : Node} (hc : c.skipWhile isBlank = ⟨past, "if".toList ++ t⟩)
    (hpast : Gap past) (ht : Gap t) (hcolon : NoColon t)
    (hif : Grammar.ifThenElse.runWith call ⟨past, "if".toList ++ t⟩ = .hit stop v) (hv : v.isIgnore = false) :
    Grammar.expr.runWith call c = .hit stop v := by
  have hlet : ((Cursor.mk past ("if".toList ++ t)).skipWhile isBlank).matchesWord "let".toList = false := by
    rw [skipWhile_eq_self (word_if.head?_not_isBlank t)]
    exact matchesWord_other word_if hpast ht (by decide) (by decide)
  have hfirst : (firstOf alternatives).runWith call ⟨past, "if".toList ++ t⟩ = _ :=
    (firstOf_of_miss (miss_letIn hlet)).trans (firstOf_of_hit hif)
  exact hit_expr (hit_skipNoise hc word_if (by decide) (by decide) hpast ht.head?_not_isTokenChar hcolon) hfirst hv

/-- Names that are all of a text, up to blanks around them, are a call. -/
theorem parses_call (names : Names) : Parses (deeper call) (.call names) := by
  intro m n
  have hskip := skipWhile_spaces [] m ((Tree.call names).head?_display (spaces n))
  obtain ⟨w, ws, hws⟩ := List.exists_cons_of_ne_nil names.texts_ne_nil
  have hne : ∀ kw ∈ ["let", "if", "case", "module", "import"].map String.toList, kw ≠ w := by
    have hkeywords : ∀ kw ∈ ["let", "if", "case", "module", "import"].map String.toList, kw ∈ keywords := by decide
    exact fun kw hkw => names.ne_of_mem_keywords (hkeywords kw hkw) w (by simp [hws])
  have hword := names.word
  rw [hws] at hword
  obtain ⟨hw, hmore⟩ := List.forall_mem_cons.mp hword
  rw [Tree.display_call, hws, intercalate_cons, List.append_nil] at hskip
  have hcall : Grammar.expr.runWith call ⟨[], spaces m ++ (w ++ ws.flatMap (' ' :: ·) ++ spaces n)⟩ = _ :=
    hit_expr_words hw hmore hne hskip (gap_of_all (all_isBlank_spaces m)) (all_isBlank_spaces n)
  rw [Tree.display_call, hws, intercalate_cons, Tree.node, hws, List.reverse_append, List.reverse_append, reverse_spaces m]
  simp only [List.append_assoc] at hcall ⊢
  exact hcall

/-- A condition opens with its `if`. -/
theorem Tree.exists_if (condition : Names) (yes no : Tree) (rest : Text) :
    ∃ t, (Tree.ifThenElse condition yes no).node.display ++ rest = "if".toList ++ t ∧ Gap t ∧ NoColon t := by
  obtain ⟨w, ws, hws⟩ := List.exists_cons_of_ne_nil condition.texts_ne_nil
  have hw : Word w := condition.word w (by simp [hws])
  simp only [display_ifThenElse, hws, intercalate_cons, List.append_assoc]
  exact ⟨_, rfl, gap_blank _, noColon_of_lexeme (s := [' ']) (by decide) hw.lexeme _⟩

/-- A condition is read where its names and its branches are. -/
theorem parses_ifThenElse {condition : Names} {yes no : Tree}
    (hcondition : ∃ stop, call .expr (.start ([' '].intercalate condition.texts ++ [' '])) =
      .hit stop (.call condition.texts))
    (hyes : Parses call yes) (hno : Parses call no) (helse : ElseIf call no) :
    Parses (deeper call) (.ifThenElse condition yes no) := by
  intro m n
  have hskip := skipWhile_spaces [] m ((Tree.ifThenElse condition yes no).head?_display (spaces n))
  have hgap : Gap (spaces m) := gap_of_all (all_isBlank_spaces m)
  have hif := hit_ifThenElse hcondition hyes hno helse hgap (newline_not_mem_spaces m) n
  obtain ⟨t, ht, hgapT, hcolon⟩ := Tree.exists_if condition yes no (spaces n)
  rw [ht, List.append_nil] at hskip
  rw [ht] at hif
  rw [ht, List.reverse_append, reverse_spaces m]
  exact hit_expr_if hskip hgap hgapT hcolon hif (Tree.node_isIgnore _)

theorem elseIf_call (names : Names) : ElseIf (deeper call) (.call names) := by
  refine Or.inr fun past n hpast => miss_ifThenElse ?_
  obtain ⟨w, ws, hws⟩ := List.exists_cons_of_ne_nil names.texts_ne_nil
  have hmem : w ∈ names.texts := by simp [hws]
  rw [Tree.display_call, hws, intercalate_cons, List.append_assoc]
  exact matchesWord_other (names.word w hmem) hpast (gap_words ws (gap_of_all (all_isBlank_spaces n))) (by decide)
    (names.ne_of_mem_keywords (by decide) w hmem)

theorem elseIf_ifThenElse {condition : Names} {yes no : Tree}
    (hcondition : ∃ stop, call .expr (.start ([' '].intercalate condition.texts ++ [' '])) =
      .hit stop (.call condition.texts))
    (hyes : Parses call yes) (hno : Parses call no) (helse : ElseIf call no) :
    ElseIf (deeper call) (.ifThenElse condition yes no) :=
  Or.inl fun _ n hpast hline => hit_ifThenElse hcondition hyes hno helse hpast hline n

/-- The rules give the nodes of all trees that are nested at most so deeply, alone and after an `else`. -/
def Complete (call : Rule → Cursor → Outcome Node) (depth : Nat) : Prop :=
  ∀ e : Tree, e.height ≤ depth → Parses call e ∧ ElseIf call e

/-- The names between `if` and `then` are read where calls are. -/
theorem Complete.condition {depth : Nat} (h : Complete call depth) (hpos : 0 < depth) (names : Names) :
    ∃ stop, call .expr (.start ([' '].intercalate names.texts ++ [' '])) = .hit stop (.call names.texts) :=
  ⟨_, (h (.call names) hpos).1 0 1⟩

/-- One more level of rules is complete for one more level of conditions. -/
theorem Complete.deeper {depth : Nat} (h : Complete call depth) : Complete (deeper call) (depth + 1) := by
  intro e he
  cases e with
  | call names => exact ⟨parses_call names, elseIf_call names⟩
  | ifThenElse condition yes no =>
    rw [Tree.height] at he
    have hpos := yes.height_pos
    have hcondition := h.condition (by omega) condition
    obtain ⟨hyes, -⟩ := h yes (by omega)
    obtain ⟨hno, helse⟩ := h no (by omega)
    exact ⟨parses_ifThenElse hcondition hyes hno helse, elseIf_ifThenElse hcondition hyes hno helse⟩

end Reading

/-- Rules that are nested so deeply are complete for conditions that are. -/
theorem complete_run (depth : Nat) : Complete (Rule.run depth) depth := by
  induction depth with
  | zero => exact fun e he => absurd e.height_pos (Nat.not_lt_of_le he)
  | succ depth ih => exact ih.deeper

/-- The display of a tree of calls and conditions is read back, to its end, as the node that it shows. -/
theorem display_parses_back (e : Tree) :
    Grammar.expr.parse (.start e.node.display) =
      .hit ((Cursor.start e.node.display).advance e.node.display.length) e.node := by
  have hdepth : e.height ≤ depthBound e.node.display := by
    have hbound : e.node.display.length + 2 ≤ depthBound e.node.display := Nat.le_mul_of_pos_left _ (by omega)
    have hle := e.height_le_length
    omega
  have hparses := (complete_run (depthBound e.node.display + 1) e (by omega)).1 0 0
  have htext : spaces 0 ++ (e.node.display ++ spaces 0) = e.node.display := List.append_nil _
  have hend : (Cursor.start e.node.display).advance e.node.display.length = ⟨e.node.display.reverse, []⟩ := by
    simp [start, advance]
  rw [htext] at hparses
  rw [hend]
  exact hparses

end OneLine

end Offside
