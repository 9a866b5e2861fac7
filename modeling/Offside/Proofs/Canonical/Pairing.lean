import Offside.Proofs.Canonical.Blocks

/-!
# Conditions pair up

In the lines of an expression every `if` has its `else`, so the search for the `else` of a condition goes past the
branch before it, however deeply conditions are nested there.
-/

namespace Offside

namespace Canonical

/-- A text that the search for the `else` of an `if` passes, with so many `if` before it and after it that wait for
theirs. -/
def Passes (s : Text) (depth depth' : Nat) : Prop :=
  ∀ past, Apart past → Apart (s.reverse ++ past) ∧ ∀ rest,
    closingPlace? "if".toList "else".toList past depth (s ++ rest) =
      (closingPlace? "if".toList "else".toList (s.reverse ++ past) depth' rest).map (· + s.length)

theorem passes_nil (depth : Nat) : Passes [] depth depth := by
  intro past hpast
  exact ⟨hpast, fun rest => by simp⟩

theorem Passes.append {s s' : Text} {depth depth' depth'' : Nat} (h : Passes s depth depth')
    (h' : Passes s' depth' depth'') : Passes (s ++ s') depth depth'' := by
  intro past hpast
  obtain ⟨hmid, hs⟩ := h past hpast
  obtain ⟨hend, hs'⟩ := h' _ hmid
  rw [List.reverse_append, List.append_assoc]
  refine ⟨hend, fun rest => ?_⟩
  rw [List.append_assoc, hs, hs', Option.map_map, List.length_append]
  congr 1
  funext n
  simp only [Function.comp_apply]
  omega

theorem word_if : Word "if".toList := word_of_mem_reserved (by decide)

theorem word_else : Word "else".toList := word_of_mem_reserved (by decide)

/-- What has neither letters nor digits is passed. -/
theorem passes_of_not_word {s : Text} {depth : Nat} (h : ∀ ch ∈ s, isWordChar ch = false) : Passes s depth depth := by
  intro past hpast
  constructor
  · cases hs : s.reverse with
    | nil => exact hpast
    | cons ch t =>
      have hmem : ch ∈ s := by rw [← List.mem_reverse, hs]; simp
      simp [Apart, h ch hmem]
  · intro rest
    exact closingPlace?_append (free_of_not_word word_if h) (free_of_not_word word_else h)

theorem passes_spaces (n depth : Nat) : Passes (spaces n) depth depth := by
  refine passes_of_not_word fun ch hch => ?_
  obtain ⟨-, rfl⟩ := List.mem_replicate.mp hch
  decide

/-- The search goes on past a word with so many `if` before it and after it that wait for their `else`. -/
def PassesWord (w : Text) (depth depth' : Nat) : Prop :=
  ∀ past rest, Apart past → Apart rest →
    closingPlace? "if".toList "else".toList past depth (w ++ rest) =
      (closingPlace? "if".toList "else".toList (w.reverse ++ past) depth' rest).map (· + w.length)

/-- A word that is neither `if` nor `else`. -/
def Plain (w : Text) : Prop :=
  Lexeme w ∧ "if".toList ≠ w ∧ "else".toList ≠ w

theorem Plain.passesWord {w : Text} (h : Plain w) (depth : Nat) : PassesWord w depth depth := by
  intro past rest hpast hrest
  exact closingPlace?_append (free_lexeme word_if h.1 h.2.1 hpast hrest) (free_lexeme word_else h.1 h.2.2 hpast hrest)

theorem passesWord_if (depth : Nat) : PassesWord "if".toList depth (depth + 1) :=
  fun _ _ hpast hrest => closingPlace?_opener word_if hpast hrest

theorem passesWord_else (depth : Nat) : PassesWord "else".toList (depth + 1) depth :=
  fun _ _ hpast hrest => closingPlace?_closer_succ word_else word_if (by decide) hpast hrest

/-- Plain words to the end of a line are passed. -/
theorem closingPlace?_words {ws : List Text} (hws : ∀ w ∈ ws, Plain w) (past rest : Text) (depth : Nat) :
    closingPlace? "if".toList "else".toList past depth (ws.flatMap (' ' :: ·) ++ ['\n'] ++ rest) =
      (closingPlace? "if".toList "else".toList ((ws.flatMap (' ' :: ·) ++ ['\n']).reverse ++ past) depth rest).map
        (· + (ws.flatMap (' ' :: ·) ++ ['\n']).length) := by
  have hnl : ∀ ch ∈ ['\n'], isWordChar ch = false := not_isWordChar_of_any rfl
  refine closingPlace?_append (free_append ?_ (free_of_not_word word_if hnl))
    (free_append ?_ (free_of_not_word word_else hnl))
  · exact free_flatMap word_if (fun w hw => ⟨(hws w hw).1, (hws w hw).2.1⟩) (apart_newline _)
  · exact free_flatMap word_else (fun w hw => ⟨(hws w hw).1, (hws w hw).2.2⟩) (apart_newline _)

/-- A line is passed as its first word is, if the others are plain. -/
theorem passes_line {n depth depth' : Nat} {w : Text} {ws : List Text} (hw : PassesWord w depth depth')
    (hws : ∀ w ∈ ws, Plain w) : Passes (Line.mk n (w :: ws)).text depth depth' := by
  have htext : (Line.mk n (w :: ws)).text = spaces n ++ (w ++ (ws.flatMap (' ' :: ·) ++ ['\n'])) := by
    simp [Line.text_eq, Line.content, intercalate_cons]
  rw [htext]
  refine (passes_spaces n depth).append ?_
  intro past hpast
  constructor
  · simp [apart_newline]
  · intro rest
    have hblank : Apart (ws.flatMap (' ' :: ·) ++ ['\n'] ++ rest) := by
      cases ws with
      | nil => exact apart_newline _
      | cons w' ws => exact apart_blank _
    rw [List.append_assoc, hw past _ hpast hblank, closingPlace?_words hws, Option.map_map,
      @List.reverse_append _ w, List.append_assoc, @List.length_append _ w]
    congr 1
    funext k
    simp only [Function.comp_apply]
    omega

theorem Ident.plain (i : Ident) : Plain i.name := by
  have hif : "if".toList ∈ reserved := by decide
  have helse : "else".toList ∈ reserved := by decide
  refine ⟨i.lexeme, ?_, ?_⟩
  · intro heq
    exact i.not_reserved (heq ▸ hif)
  · intro heq
    exact i.not_reserved (heq ▸ helse)

theorem plain_idents (is : List Ident) : ∀ w ∈ is.map Ident.name, Plain w := by
  rw [List.forall_mem_map]
  exact fun i _ => i.plain

theorem plain_append_singleton {ws : List Text} {w : Text} (hws : ∀ w ∈ ws, Plain w) (hw : Plain w) :
    ∀ x ∈ ws ++ [w], Plain x := by
  rw [List.forall_mem_append, List.forall_mem_singleton]
  exact ⟨hws, hw⟩

theorem plain_then : Plain "then".toList := ⟨lexeme_of_mem_reserved (by decide), by decide, by decide⟩

theorem plain_let : Plain "let".toList := ⟨lexeme_of_mem_reserved (by decide), by decide, by decide⟩

theorem plain_in : Plain "in".toList := ⟨lexeme_of_mem_reserved (by decide), by decide, by decide⟩

theorem plain_case : Plain "case".toList := ⟨lexeme_of_mem_reserved (by decide), by decide, by decide⟩

theorem plain_of : Plain "of".toList := ⟨lexeme_of_mem_reserved (by decide), by decide, by decide⟩

theorem plain_equals : Plain "=".toList := ⟨lexeme_equals, by decide, by decide⟩

theorem plain_arrow : Plain "->".toList := ⟨lexeme_arrow, by decide, by decide⟩

theorem passes_definitions {n depth : Nat} {ds : List Definition}
    (h : ∀ d ∈ ds, Passes (textOf (d.body.lines (n + 4))) depth depth) :
    Passes (textOf (Definition.allLines n ds)) depth depth := by
  induction ds with
  | nil => exact passes_nil depth
  | cons d ds ih =>
    obtain ⟨hd, hds⟩ := List.forall_mem_cons.mp h
    have hline := plain_append_singleton (plain_idents d.params) plain_equals
    rw [Definition.allLines, textOf_append, Definition.lines_eq, textOf_cons]
    exact ((passes_line (d.name.plain.passesWord depth) hline).append hd).append (ih hds)

theorem passes_branches {n depth : Nat} {bs : List Branch}
    (h : ∀ b ∈ bs, Passes (textOf (b.body.lines (n + 4))) depth depth) :
    Passes (textOf (Branch.allLines n bs)) depth depth := by
  induction bs with
  | nil => exact passes_nil depth
  | cons b bs ih =>
    obtain ⟨hb, hbs⟩ := List.forall_mem_cons.mp h
    have hline := plain_append_singleton (plain_idents b.pattern.more) plain_arrow
    rw [Branch.allLines, textOf_append, Branch.lines_eq, textOf_cons]
    exact ((passes_line (b.pattern.first.plain.passesWord depth) hline).append hb).append (ih hbs)

/-- In the lines of an expression every `if` has its `else`. -/
theorem Expr.passes (e : Expr) (n depth : Nat) : Passes (textOf (e.lines n)) depth depth := by
  induction e using Expr.induct generalizing n depth with
  | call names =>
    rw [Expr.lines, textOf_cons]
    exact (passes_line (names.first.plain.passesWord depth) (plain_idents names.more)).append (passes_nil depth)
  | ifThenElse condition yes no ihyes ihno =>
    have hif := passes_line (n := n) (passesWord_if depth)
      (plain_append_singleton (plain_idents (condition.first :: condition.more)) plain_then)
    have helse := passes_line (n := n) (passesWord_else depth) (List.forall_mem_nil Plain)
    rw [Expr.lines, textOf_cons, textOf_append, textOf_cons]
    exact hif.append ((ihyes (n + 4) (depth + 1)).append (helse.append (ihno (n + 4) depth)))
  | letIn first more body ihds ihbody =>
    have hlet := passes_line (n := n) (plain_let.passesWord depth) (List.forall_mem_nil Plain)
    have hin := passes_line (n := n) (plain_in.passesWord depth) (List.forall_mem_nil Plain)
    have hds := passes_definitions (n := n + 4) fun d hd => ihds d hd (n + 4 + 4) depth
    rw [Expr.lines_letIn, textOf_cons, textOf_append, textOf_cons]
    exact hlet.append (hds.append (hin.append (ihbody (n + 4) depth)))
  | caseOf subject first more ihbs =>
    have hcase := passes_line (n := n) (plain_case.passesWord depth)
      (plain_append_singleton (plain_idents (subject.first :: subject.more)) plain_of)
    have hbs := passes_branches (n := n + 4) fun b hb => ihbs b hb (n + 4 + 4) depth
    rw [Expr.lines_caseOf, textOf_cons]
    exact hcase.append hbs

/-- The search for the `else` of an `if` goes past the branch between them. -/
theorem closingPlace?_branch (e : Expr) (m n : Nat) (past : Text) {rest : Text} (hrest : Apart rest) :
    closingPlace? "if".toList "else".toList past 0
        (['\n'] ++ (textOf (e.lines n) ++ spaces m ++ ("else".toList ++ rest))) =
      some (['\n'] ++ (textOf (e.lines n) ++ spaces m)).length := by
  have hnl : ∀ ch ∈ ['\n'], isWordChar ch = false := not_isWordChar_of_any rfl
  obtain ⟨hend, hskip⟩ := ((e.passes n 0).append (passes_spaces m 0)) ('\n' :: past) (apart_newline past)
  have hclose := closingPlace?_closer_zero word_else word_if (by decide) hend hrest
  rw [closingPlace?_append (free_of_not_word word_if hnl) (free_of_not_word word_else hnl), List.reverse_singleton,
    List.singleton_append, hskip, hclose]
  simp

end Canonical

end Offside
