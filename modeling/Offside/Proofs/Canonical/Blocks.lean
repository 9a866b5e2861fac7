import Offside.Proofs.Canonical.Words

/-!
# The blocks of a program

An expression is laid out as a block: lines of words that are all at least as far in as its first. The block has more
characters than expressions are nested in it.
-/

namespace Offside

namespace Canonical

/-! ## Induction -/

/-- Induction on expressions, with the bodies of definitions and arms as parts. -/
@[elab_as_elim]
theorem Expr.induct {motive : Expr → Prop} (call : ∀ names, motive (.call names))
    (ifThenElse : ∀ condition yes no, motive yes → motive no → motive (.ifThenElse condition yes no))
    (letIn : ∀ first more body, (∀ d ∈ first :: more, motive d.body) → motive body → motive (.letIn first more body))
    (caseOf : ∀ subject first more, (∀ b ∈ first :: more, motive b.body) → motive (.caseOf subject first more))
    (e : Expr) : motive e :=
  @Expr.rec motive (fun d => motive d.body) (fun b => motive b.body) (fun ds => ∀ d ∈ ds, motive d.body)
    (fun bs => ∀ b ∈ bs, motive b.body) call ifThenElse
    (fun first more body hfirst hmore => letIn first more body (List.forall_mem_cons.mpr ⟨hfirst, hmore⟩))
    (fun subject first more hfirst hmore => caseOf subject first more (List.forall_mem_cons.mpr ⟨hfirst, hmore⟩))
    (fun _ _ _ hbody => hbody) (fun _ _ hbody => hbody) (List.forall_mem_nil _)
    (fun _ _ hd hds => List.forall_mem_cons.mpr ⟨hd, hds⟩) (List.forall_mem_nil _)
    (fun _ _ hb hbs => List.forall_mem_cons.mpr ⟨hb, hbs⟩) e

/-! ## Definitions and branches in order -/

theorem Definition.bindings_eq (ds : List Definition) : Definition.bindings ds = ds.map Definition.binding := by
  induction ds with
  | nil => rfl
  | cons d ds ih => rw [Definition.bindings, ih, List.map_cons]

theorem Branch.arms_eq (bs : List Branch) : Branch.arms bs = bs.map Branch.arm := by
  induction bs with
  | nil => rfl
  | cons b bs ih => rw [Branch.arms, ih, List.map_cons]

theorem Definition.allLines_eq (n : Nat) (ds : List Definition) :
    Definition.allLines n ds = ds.flatMap (Definition.lines n) := by
  induction ds with
  | nil => rfl
  | cons d ds ih => rw [Definition.allLines, ih, List.flatMap_cons]

theorem Branch.allLines_eq (n : Nat) (bs : List Branch) : Branch.allLines n bs = bs.flatMap (Branch.lines n) := by
  induction bs with
  | nil => rfl
  | cons b bs ih => rw [Branch.allLines, ih, List.flatMap_cons]

theorem Definition.height_eq (d : Definition) : d.height = d.body.height := by
  cases d
  rfl

theorem Branch.height_eq (b : Branch) : b.height = b.body.height := by
  cases b
  rfl

theorem Definition.height_le_maxHeight {d : Definition} {ds : List Definition} (h : d ∈ ds) :
    d.height ≤ Definition.maxHeight ds := by
  induction ds with
  | nil => cases h
  | cons d' ds ih =>
    rw [Definition.maxHeight]
    rcases List.mem_cons.mp h with rfl | hds
    · exact Nat.le_max_left _ _
    · exact Nat.le_trans (ih hds) (Nat.le_max_right _ _)

theorem Branch.height_le_maxHeight {b : Branch} {bs : List Branch} (h : b ∈ bs) : b.height ≤ Branch.maxHeight bs := by
  induction bs with
  | nil => cases h
  | cons b' bs ih =>
    rw [Branch.maxHeight]
    rcases List.mem_cons.mp h with rfl | hbs
    · exact Nat.le_max_left _ _
    · exact Nat.le_trans (ih hbs) (Nat.le_max_right _ _)

theorem Expr.height_pos (e : Expr) : 0 < e.height := by
  cases e <;> simp [Expr.height]

/-! ## The lines of a block -/

/-- The line has words, and they are words. -/
def Line.Tidy (l : Line) : Prop :=
  l.words ≠ [] ∧ ∀ w ∈ l.words, Lexeme w

/-- All lines have words and are at least so far in. -/
def Within (n : Nat) (ls : List Line) : Prop :=
  ∀ l ∈ ls, l.Tidy ∧ n ≤ l.indent

/-- A line of words has something visible, and is one line. -/
theorem Line.Tidy.visible {l : Line} (h : l.Tidy) : l.Visible := by
  obtain ⟨hne, hwords⟩ := h
  cases hw : l.words with
  | nil => exact absurd hw hne
  | cons w ws =>
    rw [hw] at hwords
    obtain ⟨hw, hws⟩ := List.forall_mem_cons.mp hwords
    rw [Line.Visible, Line.content, ‹l.words = _›, intercalate_cons]
    constructor
    · cases w with
      | nil => exact absurd rfl hw.1
      | cons ch w =>
        have hch := hw.not_isBlank ch (by simp)
        simp [hch]
    · have hnl : ∀ w, Lexeme w → '\n' ∉ w := by
        intro w hw hmem
        exact absurd (hw.not_isBlank '\n' hmem) (by decide)
      rw [List.mem_append, List.mem_flatMap]
      rintro (hmem | ⟨w', hw', hmem⟩)
      · exact hnl w hw hmem
      · rcases List.mem_cons.mp hmem with heq | hmem'
        · cases heq
        · exact hnl w' (hws w' hw') hmem'

theorem within_nil {n : Nat} : Within n [] :=
  List.forall_mem_nil _

theorem within_cons {n : Nat} {l : Line} {ls : List Line} (hl : l.Tidy) (hn : n ≤ l.indent) (hls : Within n ls) :
    Within n (l :: ls) :=
  List.forall_mem_cons.mpr ⟨⟨hl, hn⟩, hls⟩

theorem Within.append {n : Nat} {ls ls' : List Line} (h : Within n ls) (h' : Within n ls') : Within n (ls ++ ls') :=
  List.forall_mem_append.mpr ⟨h, h'⟩

theorem Within.of_le {m n : Nat} {ls : List Line} (hle : m ≤ n) (h : Within n ls) : Within m ls :=
  fun l hl => ⟨(h l hl).1, Nat.le_trans hle (h l hl).2⟩

theorem within_flatMap {α : Type} {n : Nat} {xs : List α} {f : α → List Line} (h : ∀ x ∈ xs, Within n (f x)) :
    Within n (xs.flatMap f) := by
  intro l hl
  obtain ⟨x, hx, hmem⟩ := List.mem_flatMap.mp hl
  exact h x hx l hmem

theorem Names.lexeme (names : Names) : ∀ w ∈ names.texts, Lexeme w := by
  intro w hw
  obtain ⟨i, -, rfl⟩ := List.mem_map.mp hw
  exact i.lexeme

/-- A reserved word is a word. -/
theorem lexeme_of_mem_reserved {w : Text} (h : w ∈ reserved) : Lexeme w := by
  exact ⟨(word_of_mem_reserved h).1, Or.inl (word_of_mem_reserved h).2⟩

theorem lexeme_equals : Lexeme "=".toList := by
  refine ⟨by decide, Or.inr ?_⟩
  rw [show "=".toList = ['='] from rfl, List.forall_mem_singleton]
  decide

theorem lexeme_arrow : Lexeme "->".toList := by
  refine ⟨by decide, Or.inr ?_⟩
  rw [show "->".toList = ['-', '>'] from rfl, List.forall_mem_cons, List.forall_mem_singleton]
  decide

/-- A line that a word begins and a word ends, with names between them. -/
theorem tidy_of_ends {n : Nat} {w w' : Text} {ws : List Text} (hw : Lexeme w) (hws : ∀ w ∈ ws, Lexeme w)
    (hw' : Lexeme w') : (Line.mk n (w :: ws ++ [w'])).Tidy := by
  refine ⟨by simp, ?_⟩
  rw [List.forall_mem_append, List.forall_mem_cons, List.forall_mem_singleton]
  exact ⟨⟨hw, hws⟩, hw'⟩

theorem tidy_singleton {n : Nat} {w : Text} (hw : Lexeme w) : (Line.mk n [w]).Tidy :=
  ⟨by simp, List.forall_mem_singleton.mpr hw⟩

theorem Names.tidy (n : Nat) (names : Names) : (Line.mk n names.texts).Tidy :=
  ⟨by simp [Names.texts], names.lexeme⟩

theorem Definition.lines_eq (n : Nat) (d : Definition) :
    d.lines n = ⟨n, d.name.name :: d.params.map Ident.name ++ ["=".toList]⟩ :: d.body.lines (n + 4) := by
  cases d
  rfl

theorem Branch.lines_eq (n : Nat) (b : Branch) :
    b.lines n = ⟨n, b.pattern.texts ++ ["->".toList]⟩ :: b.body.lines (n + 4) := by
  cases b
  rfl

theorem Definition.tidy (n : Nat) (d : Definition) :
    (Line.mk n (d.name.name :: d.params.map Ident.name ++ ["=".toList])).Tidy := by
  refine tidy_of_ends d.name.lexeme ?_ lexeme_equals
  rw [List.forall_mem_map]
  exact fun i _ => i.lexeme

theorem Branch.tidy (n : Nat) (b : Branch) : (Line.mk n (b.pattern.texts ++ ["->".toList])).Tidy := by
  obtain ⟨first, more⟩ := b.pattern
  refine tidy_of_ends first.lexeme ?_ lexeme_arrow
  rw [List.forall_mem_map]
  exact fun i _ => i.lexeme

theorem tidy_if (n : Nat) (condition : Names) :
    (Line.mk n ("if".toList :: condition.texts ++ ["then".toList])).Tidy :=
  tidy_of_ends (lexeme_of_mem_reserved (by decide)) condition.lexeme (lexeme_of_mem_reserved (by decide))

theorem tidy_case (n : Nat) (subject : Names) :
    (Line.mk n ("case".toList :: subject.texts ++ ["of".toList])).Tidy :=
  tidy_of_ends (lexeme_of_mem_reserved (by decide)) subject.lexeme (lexeme_of_mem_reserved (by decide))

/-- The lines of definitions are at least as far in as the definitions, if those of their bodies are. -/
theorem within_definitions {n : Nat} {ds : List Definition} (h : ∀ d ∈ ds, Within (n + 4) (d.body.lines (n + 4))) :
    Within n (Definition.allLines n ds) := by
  rw [Definition.allLines_eq]
  refine within_flatMap fun d hd => ?_
  rw [Definition.lines_eq]
  exact within_cons (d.tidy n) (Nat.le_refl n) ((h d hd).of_le (Nat.le_add_right n 4))

/-- The lines of branches are at least as far in as the branches, if those of their bodies are. -/
theorem within_branches {n : Nat} {bs : List Branch} (h : ∀ b ∈ bs, Within (n + 4) (b.body.lines (n + 4))) :
    Within n (Branch.allLines n bs) := by
  rw [Branch.allLines_eq]
  refine within_flatMap fun b hb => ?_
  rw [Branch.lines_eq]
  exact within_cons (b.tidy n) (Nat.le_refl n) ((h b hb).of_le (Nat.le_add_right n 4))

theorem Expr.lines_letIn (n : Nat) (first : Definition) (more : List Definition) (body : Expr) :
    (Expr.letIn first more body).lines n =
      ⟨n, ["let".toList]⟩ ::
        (Definition.allLines (n + 4) (first :: more) ++ ⟨n, ["in".toList]⟩ :: body.lines (n + 4)) := by
  rw [Expr.lines, Definition.allLines]

theorem Expr.lines_caseOf (n : Nat) (subject : Names) (first : Branch) (more : List Branch) :
    (Expr.caseOf subject first more).lines n =
      ⟨n, "case".toList :: subject.texts ++ ["of".toList]⟩ :: Branch.allLines (n + 4) (first :: more) := by
  rw [Expr.lines, Branch.allLines]

/-- The lines of an expression are all at least as far in as the expression. -/
theorem Expr.within (e : Expr) (n : Nat) : Within n (e.lines n) := by
  induction e using Expr.induct generalizing n with
  | call names => exact within_cons (names.tidy n) (Nat.le_refl n) within_nil
  | ifThenElse condition yes no ihyes ihno =>
    have hle := Nat.le_add_right n 4
    refine within_cons (tidy_if n condition) (Nat.le_refl n) (((ihyes _).of_le hle).append ?_)
    refine within_cons (tidy_singleton (lexeme_of_mem_reserved (by decide))) (Nat.le_refl n) ?_
    exact (ihno _).of_le hle
  | letIn first more body ihds ihbody =>
    have hds := within_definitions (n := n + 4) fun d hd => ihds d hd (n + 4 + 4)
    have hle := Nat.le_add_right n 4
    rw [Expr.lines_letIn]
    refine within_cons (tidy_singleton (lexeme_of_mem_reserved (by decide))) (Nat.le_refl n) ((hds.of_le hle).append ?_)
    refine within_cons (tidy_singleton (lexeme_of_mem_reserved (by decide))) (Nat.le_refl n) ?_
    exact (ihbody _).of_le hle
  | caseOf subject first more ihbs =>
    have hbs := within_branches (n := n + 4) fun b hb => ihbs b hb (n + 4 + 4)
    have hle := Nat.le_add_right n 4
    rw [Expr.lines_caseOf]
    exact within_cons (tidy_case n subject) (Nat.le_refl n) (hbs.of_le hle)

/-! ## Depth and length -/

theorem length_textOf_cons (l : Line) (ls : List Line) : (textOf ls).length < (textOf (l :: ls)).length := by
  simp only [textOf_cons, Line.text, List.length_append, List.length_singleton]
  omega

/-- Definitions take more characters than they are deeply nested, if their bodies do. -/
theorem maxHeight_le_definitions {n : Nat} {ds : List Definition}
    (h : ∀ d ∈ ds, d.body.height ≤ (textOf (d.body.lines (n + 4))).length) :
    Definition.maxHeight ds ≤ (textOf (Definition.allLines n ds)).length := by
  induction ds with
  | nil => exact Nat.zero_le _
  | cons d ds ih =>
    obtain ⟨hd, hds⟩ := List.forall_mem_cons.mp h
    have hmore := ih hds
    have hline := length_textOf_cons ⟨n, d.name.name :: d.params.map Ident.name ++ ["=".toList]⟩ (d.body.lines (n + 4))
    rw [← Definition.lines_eq] at hline
    rw [Definition.maxHeight, Definition.allLines, textOf_append, List.length_append, Definition.height_eq]
    omega

/-- Branches take more characters than they are deeply nested, if their bodies do. -/
theorem maxHeight_le_branches {n : Nat} {bs : List Branch}
    (h : ∀ b ∈ bs, b.body.height ≤ (textOf (b.body.lines (n + 4))).length) :
    Branch.maxHeight bs ≤ (textOf (Branch.allLines n bs)).length := by
  induction bs with
  | nil => exact Nat.zero_le _
  | cons b bs ih =>
    obtain ⟨hb, hbs⟩ := List.forall_mem_cons.mp h
    have hmore := ih hbs
    have hline := length_textOf_cons ⟨n, b.pattern.texts ++ ["->".toList]⟩ (b.body.lines (n + 4))
    rw [← Branch.lines_eq] at hline
    rw [Branch.maxHeight, Branch.allLines, textOf_append, List.length_append, Branch.height_eq]
    omega

/-- An expression takes more characters than it is deeply nested. -/
theorem Expr.height_le_length (e : Expr) (n : Nat) : e.height ≤ (textOf (e.lines n)).length := by
  induction e using Expr.induct generalizing n with
  | call names =>
    have hline := length_textOf_cons ⟨n, names.texts⟩ []
    rw [Expr.lines, Expr.height]
    omega
  | ifThenElse condition yes no ihyes ihno =>
    have hyes := ihyes (n + 4)
    have hno := ihno (n + 4)
    have hline := length_textOf_cons ⟨n, "if".toList :: condition.texts ++ ["then".toList]⟩
      (yes.lines (n + 4) ++ ⟨n, ["else".toList]⟩ :: no.lines (n + 4))
    have helse := length_textOf_cons ⟨n, ["else".toList]⟩ (no.lines (n + 4))
    rw [textOf_append, List.length_append] at hline
    rw [Expr.lines, Expr.height]
    omega
  | letIn first more body ihds ihbody =>
    have hds := maxHeight_le_definitions (n := n + 4) fun d hd => ihds d hd (n + 4 + 4)
    have hbody := ihbody (n + 4)
    have hline := length_textOf_cons ⟨n, ["let".toList]⟩
      (Definition.allLines (n + 4) (first :: more) ++ ⟨n, ["in".toList]⟩ :: body.lines (n + 4))
    have hin := length_textOf_cons ⟨n, ["in".toList]⟩ (body.lines (n + 4))
    rw [Definition.maxHeight] at hds
    rw [textOf_append, List.length_append] at hline
    rw [Expr.lines_letIn, Expr.height]
    omega
  | caseOf subject first more ihbs =>
    have hbs := maxHeight_le_branches (n := n + 4) fun b hb => ihbs b hb (n + 4 + 4)
    have hline := length_textOf_cons ⟨n, "case".toList :: subject.texts ++ ["of".toList]⟩
      (Branch.allLines (n + 4) (first :: more))
    rw [Branch.maxHeight] at hbs
    rw [Expr.lines_caseOf, Expr.height]
    omega

/-- A program takes more characters than its definitions are deeply nested. -/
theorem maxHeight_le_render (program : List Definition) : Definition.maxHeight program ≤ (render program).length :=
  maxHeight_le_definitions fun d _ => d.body.height_le_length _

end Canonical

end Offside
