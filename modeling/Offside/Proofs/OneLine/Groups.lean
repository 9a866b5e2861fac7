import Offside.Proofs.OneLine.Conditions

/-!
# Groups in a condition

A call may have conditions in parentheses among its arguments. In either branch of another condition such a group stays
whole: the search for the `else` pairs it with the `if` in the group. The condition itself ends at the first `then`, so a
group there is cut at its own, and what comes after that belongs to the branches.
-/

namespace Offside

namespace OneLine

open Offside.Parser Cursor Canonical

/-! ## Calls with groups -/

/-- A word of letters, digits and `_` that is no keyword. -/
structure Name where
  /-- The word. -/
  text : Text
  /-- It has letters, digits and `_`, and nothing else. -/
  word : Word text
  /-- It is no keyword. -/
  not_keyword : text ∉ keywords

/-- An argument of a call: a name, or a condition on names in parentheses. -/
inductive Operand where
  /-- A name. -/
  | name (name : Name)
  /-- A condition and its branches, in parentheses. -/
  | group (condition yes no : Name)

/-- A function with its arguments. -/
structure Operation where
  /-- The function. -/
  function : Name
  /-- The arguments. -/
  operands : List Operand
  /-- There are some. -/
  operands_ne_nil : operands ≠ []

/-- A condition and two branches as written, on one line. -/
def ifText (c a b : Text) : Text :=
  "if ".toList ++ c ++ " then ".toList ++ a ++ " else ".toList ++ b

/-- An argument as written. -/
def Operand.text : Operand → Text
  | name n => n.text
  | group x y z => '(' :: (ifText x.text y.text z.text ++ [')'])

/-- The function and the arguments as written. -/
def Operation.tokens (e : Operation) : List Text :=
  e.function.text :: e.operands.map Operand.text

/-- A call as written, on one line. -/
def Operation.text (e : Operation) : Text :=
  [' '].intercalate e.tokens

/-- Arguments that hold a group: the names before the first group, that group, and the arguments after it. -/
structure Cut where
  /-- The names before the group. -/
  before : List Name
  /-- The condition in the group. -/
  condition : Name
  /-- The first branch in the group. -/
  yes : Name
  /-- The second branch in the group. -/
  no : Name
  /-- The arguments after the group. -/
  after : List Operand

/-- Where the first group is among the arguments of a call, if there is one. -/
def cut? : List Operand → Option Cut
  | [] => none
  | .group x y z :: more => some ⟨[], x, y, z, more⟩
  | .name n :: more => (cut? more).map fun cut => { cut with before := n :: cut.before }

/-- The node of a condition on calls. A group in the condition is cut at its `then` and its `else`: what comes before is
the condition, what comes between the first branch, and all that comes after the second. -/
def conditionalNode (c a b : Operation) : Node :=
  match cut? c.operands with
  | none => .ifThenElse (.call c.tokens) (.call a.tokens) (.call b.tokens)
  | some ⟨before, x, y, z, after⟩ =>
    .ifThenElse
      (.unparsed ([' '].intercalate (c.function.text :: before.map Name.text) ++ " (if ".toList ++ x.text))
      (.call [y.text])
      (.unparsed (z.text ++ ")".toList ++ after.flatMap (' ' :: ·.text) ++ " then ".toList ++ a.text ++ " else ".toList ++
        b.text))

/-- Without a group the arguments are names. -/
theorem eq_map_of_cut?_eq_none {os : List Operand} (h : cut? os = none) : ∃ names : List Name, os = names.map .name := by
  induction os with
  | nil => exact ⟨[], rfl⟩
  | cons o os ih =>
    cases o with
    | group x y z => cases h
    | name n =>
      obtain ⟨names, rfl⟩ := ih (by simpa [cut?] using h)
      exact ⟨n :: names, rfl⟩

/-- The arguments, put together again. -/
theorem eq_append_of_cut?_eq_some {os : List Operand} {cut : Cut} (h : cut? os = some cut) :
    os = cut.before.map .name ++ .group cut.condition cut.yes cut.no :: cut.after := by
  induction os generalizing cut with
  | nil => cases h
  | cons o os ih =>
    cases o with
    | group x y z =>
      obtain rfl : _ = cut := by simpa [cut?] using h
      rfl
    | name n =>
      obtain ⟨cut', hcut', rfl⟩ := Option.map_eq_some_iff.mp h
      rw [ih hcut']
      rfl

/-! ## The text of a call -/

theorem Name.ne_of_mem_keywords (n : Name) {kw : Text} (h : kw ∈ keywords) : kw ≠ n.text := by
  rintro rfl
  exact n.not_keyword h

/-- No name is a word that another rule begins with. -/
theorem Name.ne_opening (n : Name) : ∀ kw ∈ ["let", "if", "case", "module", "import"].map String.toList, kw ≠ n.text := by
  have hkeywords : ∀ kw ∈ ["let", "if", "case", "module", "import"].map String.toList, kw ∈ keywords := by decide
  exact fun kw hkw => n.ne_of_mem_keywords (hkeywords kw hkw)

theorem Name.plain (n : Name) : Plain n.text :=
  ⟨n.word.lexeme, n.ne_of_mem_keywords (by decide), n.ne_of_mem_keywords (by decide)⟩

/-- A condition as written, word by word. -/
theorem ifText_eq (c a b : Text) :
    ifText c a b = "if".toList ++ ([' '] ++ (c ++ [' '] ++ ("then".toList ++ ([' '] ++ (a ++ [' ']) ++
      ("else".toList ++ ([' '] ++ b)))))) := by
  have htext : ifText c a b = ("if".toList ++ [' ']) ++ c ++ ([' '] ++ "then".toList ++ [' ']) ++ a ++
      ([' '] ++ "else".toList ++ [' ']) ++ b := rfl
  rw [htext]
  simp only [List.append_assoc]

/-- What is in a condition and not in its words is in its parts. -/
theorem not_mem_ifText {ch : Char} {c a b : Text} (hch : ch ∉ "if then else".toList) :
    ch ∉ ifText c a b ↔ ch ∉ c ∧ ch ∉ a ∧ ch ∉ b := by
  have hwords : "if then else".toList = "if".toList ++ ([' '] ++ ("then".toList ++ ([' '] ++ "else".toList))) := rfl
  rw [hwords] at hch
  simp only [List.mem_append, not_or] at hch
  simp only [ifText_eq, List.mem_append, not_or]
  simp only [hch, not_false_eq_true, and_true, true_and]

/-- A call is its function, and its arguments with a blank before each. -/
theorem Operation.text_eq (e : Operation) : e.text = e.function.text ++ e.operands.flatMap (' ' :: ·.text) := by
  rw [text, tokens, intercalate_cons, List.flatMap_map]

theorem Name.newline_not_mem (n : Name) : '\n' ∉ n.text :=
  newline_not_mem_word n.word

/-- An argument is on one line. -/
theorem Operand.newline_not_mem (o : Operand) : '\n' ∉ o.text := by
  cases o with
  | name n => exact n.newline_not_mem
  | group x y z =>
    have hline := (not_mem_ifText (by decide)).mpr ⟨x.newline_not_mem, y.newline_not_mem, z.newline_not_mem⟩
    simp [text, hline]

theorem newline_not_mem_operands (os : List Operand) : '\n' ∉ os.flatMap (' ' :: ·.text) := by
  simp only [List.mem_flatMap, List.mem_cons, not_exists, not_and, not_or]
  exact fun o _ => ⟨by decide, o.newline_not_mem⟩

/-- A call is on one line. -/
theorem Operation.newline_not_mem (e : Operation) : '\n' ∉ e.text := by
  rw [text_eq, List.mem_append, not_or]
  exact ⟨e.function.newline_not_mem, newline_not_mem_operands e.operands⟩

/-- A text with something visible at either end. -/
def Solid (t : Text) : Prop :=
  t.head?.any (!isBlank ·) ∧ t.getLast?.any (!isBlank ·)

/-- Something visible at either end is there however the text goes on between them. -/
theorem Solid.append {s t : Text} (hs : Solid s) (ht : Solid t) (between : Text) : Solid (s ++ (between ++ t)) := by
  constructor
  · cases s with
    | nil => cases hs.1
    | cons ch s => exact hs.1
  · rw [List.getLast?_append, List.getLast?_append]
    cases hl : t.getLast? with
    | none => rw [Solid, hl] at ht; exact absurd ht.2 (by simp)
    | some ch =>
      have hch := ht.2
      rw [hl] at hch
      simpa using hch

theorem Solid.trimmed {t : Text} (h : Solid t) : t.Trimmed := by
  obtain ⟨hfirst, hlast⟩ := h
  constructor
  · cases hc : t.head? <;> simp_all
  · cases hc : t.getLast? <;> simp_all

theorem solid_word {w : Text} (hw : Word w) : Solid w := by
  have hvisible : ∀ ch ∈ w, !isBlank ch := fun ch hch => by simp [isBlank_of_isWordChar (hw.2 ch hch)]
  constructor
  · rw [List.head?_eq_some_head hw.1]
    exact hvisible _ (List.head_mem hw.1)
  · rw [List.getLast?_eq_some_getLast hw.1]
    exact hvisible _ (List.getLast_mem hw.1)

/-- What is trimmed is so again with blanks after it. -/
theorem Solid.trim_append {s t : Text} (hs : Solid s) (ht : t.all isBlank) : (s ++ t).trim = s := by
  have hhead : (s ++ t).head?.all (!isBlank ·) := by
    cases s with
    | nil => cases hs.1
    | cons ch s => exact hs.trimmed.head
  rw [Text.trim, (takeWhile_of_head? hhead).2, Text.trimEnd_append_of_all ht, Text.trimEnd_eq_self hs.trimmed.last]

/-- An argument begins and ends with something visible. -/
theorem Operand.solid (o : Operand) : Solid o.text := by
  cases o with
  | name n => exact solid_word n.word
  | group x y z =>
    have hsolid : Solid (['('] ++ (ifText x.text y.text z.text ++ [')'])) := .append ⟨rfl, rfl⟩ ⟨rfl, rfl⟩ _
    exact hsolid

/-- A call begins and ends with something visible. -/
theorem Operation.solid (e : Operation) : Solid e.text := by
  obtain ⟨os, o, ho⟩ := List.eq_nil_or_concat e.operands |>.resolve_left e.operands_ne_nil
  have htext : e.text = e.function.text ++ ((os.flatMap (' ' :: ·.text) ++ [' ']) ++ o.text) := by
    rw [text_eq, ho]
    simp
  rw [htext]
  exact (solid_word e.function.word).append o.solid _

/-! ## Calls are read -/

variable {call : Rule → Cursor → Outcome Node}

/-- An argument comes first where a blank or nothing comes after it. -/
theorem leads_operand (o : Operand) {t : Text} (ht : Gap t) : o.text.Leads t := by
  cases o with
  | name n => exact leads_word n.word ht
  | group x y z =>
    have hclosing {w : Text} (hw : Word w) : ')' ∉ w := fun hmem => absurd (hw.2 ')' hmem) (by decide)
    have hinner := (not_mem_ifText (by decide)).mpr ⟨hclosing x.word, hclosing y.word, hclosing z.word⟩
    exact ⟨Or.inr ⟨_, rfl, hinner⟩, fun htoken => absurd (htoken.all '(' List.mem_cons_self) (by decide)⟩

theorem gap_operands (os : List Operand) {t : Text} (ht : Gap t) : Gap (os.flatMap (' ' :: ·.text) ++ t) := by
  cases os with
  | nil => exact ht
  | cons o os => exact gap_blank _

/-- Arguments with a blank before each, and blanks after the last, are arguments in a row. -/
theorem row_operands (os : List Operand) {s rest : Text} (hs : s.all isBlank) (hgap : Gap (s ++ rest)) :
    Text.Row (os.map Operand.text) (os.flatMap (' ' :: ·.text) ++ (s ++ rest)) rest := by
  induction os with
  | nil => exact .done hs
  | cons o os ih =>
    have hrow := Text.Row.argument (s := [' ']) rfl (leads_operand o (gap_operands os hgap)) ih
    simpa using hrow

/-- No colon comes after a function. -/
theorem noColon_operands (os : List Operand) {t : Text} (ht : NoColon t) : NoColon (os.flatMap (' ' :: ·.text) ++ t) := by
  cases os with
  | nil => exact ht
  | cons o os =>
    rw [List.flatMap_cons, List.append_assoc]
    cases o with
    | name n => exact noColon_of_lexeme (s := [' ']) rfl n.word.lexeme _
    | group x y z => rfl

/-- What begins with a function and arguments is a call if they go on to the end of the text; if not, the text is not
understood. -/
theorem hit_expr_function (f : Name) (os : List Operand) {blanks s rest : Text} (hblanks : blanks.all isBlank)
    (hs : s.all isBlank) (hgap : Gap (s ++ rest)) (hcolon : NoColon (s ++ rest)) (hrest : rest.Stuck) :
    Grammar.expr.runWith call (.start (blanks ++ (f.text ++ (os.flatMap (' ' :: ·.text) ++ (s ++ rest))))) =
      .hit ⟨(blanks ++ (f.text ++ (os.flatMap (' ' :: ·.text) ++ (s ++ rest)))).reverse, []⟩
        (if rest = [] then .call (f.text :: os.map Operand.text)
          else .unparsed (f.text ++ (os.flatMap (' ' :: ·.text) ++ (s ++ rest))).trim) := by
  have hskip : (Cursor.start (blanks ++ (f.text ++ (os.flatMap (' ' :: ·.text) ++ (s ++ rest))))).skipWhile isBlank =
      ⟨blanks.reverse ++ [], f.text ++ (os.flatMap (' ' :: ·.text) ++ (s ++ rest))⟩ :=
    skipWhile_append [] (List.all_eq_true.mp hblanks) (f.word.head?_not_isBlank _)
  have hends := gap_operands os hgap
  have hrow : Text.Row (f.text :: os.map Operand.text)
      ([] ++ (f.text ++ (os.flatMap (' ' :: ·.text) ++ (s ++ rest)))) rest :=
    .argument rfl (leads_word f.word hends) (row_operands os hs hgap)
  have hread : Grammar.expr.runWith call _ = _ := hit_expr_word f.word f.ne_opening hskip
    (gap_of_all (by simpa using hblanks)) hends.head?_not_isTokenChar (noColon_operands os hcolon) hrow hrest
  rw [hread, List.append_nil, ← List.reverse_append]

/-- A call that is all of a text, up to blanks around it, is read as one. -/
theorem hit_expr_operation (e : Operation) {blanks s : Text} (hblanks : blanks.all isBlank) (hs : s.all isBlank) :
    Grammar.expr.runWith call (.start (blanks ++ (e.text ++ s))) =
      .hit ⟨(blanks ++ (e.text ++ s)).reverse, []⟩ (.call e.tokens) := by
  have hall : (s ++ []).all isBlank := by simpa using hs
  have hread : Grammar.expr.runWith call (.start _) = _ :=
    hit_expr_function e.function e.operands hblanks hs (gap_of_all hall) (noColon_of_all hall) Text.stuck_nil
  simp only [List.append_nil, if_true] at hread
  rw [e.text_eq, List.append_assoc]
  exact hread

/-- Every `if` in a call has its `else`. -/
theorem Operation.passes (e : Operation) (depth : Nat) : Passes (e.text ++ [' ']) depth depth := by
  have hblank : ∀ ch ∈ [' '], isWordChar ch = false := not_isWordChar_of_any rfl
  refine passes_words (by simp [tokens]) ?_
  rw [tokens, List.forall_mem_cons, List.forall_mem_map]
  refine ⟨passes_wordBlank (e.function.plain.passesWord depth), fun o _ => ?_⟩
  cases o with
  | name n => exact passes_wordBlank (n.plain.passesWord depth)
  | group x y z =>
    have hopen : Passes ['('] depth depth := passes_of_not_word (not_isWordChar_of_any rfl)
    have hif := passes_wordBlank (passesWord_if depth)
    have hx := passes_wordBlank (x.plain.passesWord (depth + 1))
    have hthen := passes_wordBlank (plain_then.passesWord (depth + 1))
    have hy := passes_wordBlank (y.plain.passesWord (depth + 1))
    have helse := passes_wordBlank (passesWord_else depth)
    have hz : Passes (z.text ++ [')', ' ']) depth depth :=
      passes_wordThen (z.plain.passesWord depth) (by simp) (not_isWordChar_of_any rfl)
    have hall := hopen.append (hif.append (hx.append (hthen.append (hy.append (helse.append hz)))))
    have htext : (Operand.group x y z).text ++ [' '] = ['('] ++ (("if".toList ++ [' ']) ++ ((x.text ++ [' ']) ++
        (("then".toList ++ [' ']) ++ ((y.text ++ [' ']) ++ (("else".toList ++ [' ']) ++ (z.text ++ [')', ' '])))))) := by
      rw [Operand.text, ifText_eq]
      simp only [List.append_assoc, List.cons_append, List.nil_append]
    rw [htext]
    exact hall

/-! ## Conditions are read -/

/-- A condition on one line is an expression, if what is between its words is read there. -/
theorem hit_expr_ifText {v s u w t : Text} {condition yes no : Node} (hv : Word v) (hs : NoThen (v ++ s))
    (hu : Passes (u ++ [' ']) 0 0) (hw : Word w) (hne : "if".toList ≠ w) (ht : Apart t)
    (hline : '\n' ∉ v ++ s ∧ '\n' ∉ u ∧ '\n' ∉ w ++ t)
    (hcondition : ∃ stop, Grammar.expr.runWith call (.start (v ++ s ++ [' '])) = .hit stop condition)
    (hyes : ∃ stop, Grammar.expr.runWith call (.start ([' '] ++ (u ++ [' ']))) = .hit stop yes)
    (hno : ∃ stop, Grammar.expr.runWith call (.start ([' '] ++ (w ++ t))) = .hit stop no)
    (hvalues : condition.isIgnore = false ∧ yes.isIgnore = false ∧ no.isIgnore = false) :
    Grammar.expr.runWith (deeper call) (.start (ifText (v ++ s) u (w ++ t))) =
      .hit ⟨(ifText (v ++ s) u (w ++ t)).reverse, []⟩ (.ifThenElse condition yes no) := by
  obtain ⟨hsLine, huLine, htLine⟩ := hline
  have hvisible : ∀ rest, (v ++ s ++ rest).head?.all (!isBlank ·) := fun rest => by
    rw [List.append_assoc]
    exact hv.head?_not_isBlank _
  have helse : ∀ past, Gap past → '\n' ∉ past →
      (oneOf [elseIf, subBlock "else" Grammar.nestedExpr]).runWith (deeper call)
        ⟨past, "else".toList ++ ([' '] ++ (w ++ t))⟩ =
          .hit ⟨([' '] ++ (w ++ t)).reverse ++ ("else".toList.reverse ++ past), []⟩ no := by
    intro past hgap hbefore
    refine hit_elseBranch_of_miss hw htLine (miss_ifThenElse ?_) hno hgap hbefore
    exact matchesWord_of_ne word_if hw.2 (apart_blank _) ht hne
  have hif := hit_condition hs hvisible hcondition hu hyes helse hvalues gap_nil ⟨List.not_mem_nil, hsLine, huLine⟩
  have hcolon : NoColon ([' '] ++ (v ++ s ++ [' '] ++ ("then".toList ++ ([' '] ++ (u ++ [' ']) ++
      ("else".toList ++ ([' '] ++ (w ++ t))))))) := by
    rw [List.append_assoc, List.append_assoc]
    exact noColon_of_lexeme rfl hv.lexeme _
  rw [ifText_eq]
  rw [List.append_nil] at hif
  exact hit_expr_if (skipWhile_eq_self (word_if.head?_not_isBlank _)) gap_nil (gap_blank _) hcolon hif rfl

/-- No name is a `then`. -/
theorem forall_mem_names (names : List Name) : ∀ w ∈ names.map Name.text, Word w ∧ "then".toList ≠ w := by
  rw [List.forall_mem_map]
  exact fun n _ => ⟨n.word, n.ne_of_mem_keywords (by decide)⟩

/-- Without a group in the condition, all groups stay whole. -/
theorem hit_expr_of_names {c : Operation} {names : List Name} (hc : c.operands = names.map .name) (a b : Operation) :
    Grammar.expr.runWith (deeper call) (.start (ifText c.text a.text b.text)) =
      .hit ⟨(ifText c.text a.text b.text).reverse, []⟩ (.ifThenElse (.call c.tokens) (.call a.tokens) (.call b.tokens)) := by
  have htokens : c.tokens = (c.function :: names).map Name.text := by
    rw [Operation.tokens, hc, List.map_map]
    rfl
  have hthen : NoThen c.text := by
    rw [Operation.text, htokens]
    exact noThen_words (forall_mem_names _)
  have hapart : Apart (b.operands.flatMap (' ' :: ·.text)) := by
    have hgap := gap_operands b.operands gap_nil
    rw [List.append_nil] at hgap
    exact hgap.apart
  have hcondition : Grammar.expr.runWith call (.start ([] ++ (c.text ++ [' ']))) = _ := hit_expr_operation c rfl rfl
  have hyes : Grammar.expr.runWith call (.start ([' '] ++ (a.text ++ [' ']))) = _ := hit_expr_operation a rfl rfl
  have hno : Grammar.expr.runWith call (.start ([' '] ++ (b.text ++ []))) = _ := hit_expr_operation b rfl rfl
  have hlines := And.intro c.newline_not_mem (And.intro a.newline_not_mem b.newline_not_mem)
  rw [List.append_nil] at hno
  rw [c.text_eq] at hthen hcondition hlines ⊢
  rw [b.text_eq] at hno hlines ⊢
  exact hit_expr_ifText c.function.word hthen (a.passes 0) b.function.word (b.function.ne_of_mem_keywords (by decide))
    hapart hlines ⟨_, hcondition⟩ ⟨_, hyes⟩ ⟨_, hno⟩ ⟨rfl, rfl, rfl⟩

/-- What comes before the `then` of the first group in a condition. -/
def upToGroup (f : Name) (before : List Name) (x : Name) : Text :=
  f.text ++ ((before.map Operand.name).flatMap (' ' :: ·.text) ++ ([' '] ++ ("(".toList ++ ("if".toList ++ ([' '] ++ x.text)))))

/-- What comes after the `else` of a group in a condition. -/
def pastGroup (z : Name) (after : List Operand) (a b : Operation) : Text :=
  z.text ++ (")".toList ++ (after.flatMap (' ' :: ·.text) ++ ([' '] ++ ("then".toList ++ ([' '] ++ (a.text ++ ([' '] ++
    ("else".toList ++ ([' '] ++ b.text)))))))))

/-- A condition with a group in it is also a condition that ends at the `then` of the group. -/
theorem ifText_of_group {c : Operation} {before : List Name} {x y z : Name} {after : List Operand}
    (hc : c.operands = before.map .name ++ .group x y z :: after) (a b : Operation) :
    ifText c.text a.text b.text = ifText (upToGroup c.function before x) y.text (pastGroup z after a b) := by
  have hgroup : (Operand.group x y z).text = "(".toList ++ (ifText x.text y.text z.text ++ ")".toList) := rfl
  rw [ifText_eq, ifText_eq, c.text_eq, hc, List.flatMap_append, List.flatMap_cons, hgroup, ifText_eq, upToGroup, pastGroup]
  simp only [List.append_assoc, List.cons_append, List.nil_append]

theorem upToGroup_eq (f : Name) (before : List Name) (x : Name) :
    upToGroup f before x = [' '].intercalate ((f :: before).map Name.text) ++ " (if ".toList ++ x.text := by
  have hopen : " (if ".toList = [' '] ++ ("(".toList ++ ("if".toList ++ [' '])) := rfl
  rw [upToGroup, List.map_cons, intercalate_cons, List.flatMap_map, List.flatMap_map, hopen]
  simp only [List.append_assoc]
  rfl

theorem pastGroup_eq (z : Name) (after : List Operand) (a b : Operation) :
    pastGroup z after a b = z.text ++ ")".toList ++ after.flatMap (' ' :: ·.text) ++ " then ".toList ++ a.text ++
      " else ".toList ++ b.text := by
  have hthen : " then ".toList = [' '] ++ ("then".toList ++ [' ']) := rfl
  have helse : " else ".toList = [' '] ++ ("else".toList ++ [' ']) := rfl
  rw [pastGroup, hthen, helse]
  simp only [List.append_assoc]

/-- No `then` comes before that of the first group. -/
theorem noThen_upToGroup (f : Name) (before : List Name) (x : Name) : NoThen (upToGroup f before x) := by
  intro past rest hpast hrest
  have hif : "then".toList ≠ "if".toList := by decide
  have hopen : ∀ ch ∈ [' ', '('], isWordChar ch = false := not_isWordChar_of_any rfl
  have hblank : ∀ ch ∈ [' '], isWordChar ch = false := not_isWordChar_of_any rfl
  have htext : upToGroup f before x =
      [' '].intercalate ((f :: before).map Name.text) ++ ([' ', '('] ++ ("if".toList ++ ([' '] ++ x.text))) := by
    rw [upToGroup_eq, List.append_assoc]
    rfl
  rw [htext]
  refine free_append (noThen_words (forall_mem_names _) _ _ hpast (apart_blank _)) ?_
  refine free_append (free_of_not_word word_then hopen) ?_
  refine free_append (free_lexeme word_then word_if.lexeme hif rfl (apart_blank _)) ?_
  refine free_append (free_of_not_word word_then hblank) ?_
  exact free_lexeme word_then x.word.lexeme (x.ne_of_mem_keywords (by decide)) (apart_blank _) hrest

/-- The text up to the `then` of a group is not understood: the parenthesis before it is not closed. -/
theorem hit_expr_upToGroup (f : Name) (before : List Name) (x : Name) :
    ∃ stop, Grammar.expr.runWith call (.start (upToGroup f before x ++ [' '])) = .hit stop (.unparsed (upToGroup f before x)) := by
  have hsolid : Solid (upToGroup f before x) := by
    have h := (solid_word f.word).append (solid_word x.word) ((before.map Operand.name).flatMap (' ' :: ·.text) ++
      ([' '] ++ ("(".toList ++ ("if".toList ++ [' ']))))
    simp only [List.append_assoc] at h
    exact h
  have htext : upToGroup f before x ++ [' '] = [] ++ (f.text ++ ((before.map Operand.name).flatMap (' ' :: ·.text) ++
      ([' '] ++ ("(".toList ++ ("if".toList ++ ([' '] ++ (x.text ++ [' ']))))))) := by
    simp only [upToGroup, List.append_assoc, List.nil_append]
  have hclosing : ')' ∉ "(".toList ++ ("if".toList ++ ([' '] ++ (x.text ++ [' ']))) := by
    have hx : ')' ∉ x.text := fun hmem => absurd (x.word.2 ')' hmem) (by decide)
    have hif : ')' ∉ "if".toList := by decide
    have hopen : ')' ∉ "(".toList := by decide
    have hblank : ')' ∉ [' '] := by decide
    simp only [List.mem_append, hx, hif, hopen, hblank, or_self, not_false_eq_true]
  have hgap : Gap ([' '] ++ ("(".toList ++ ("if".toList ++ ([' '] ++ (x.text ++ [' ']))))) := gap_blank _
  have hcolon : NoColon ([' '] ++ ("(".toList ++ ("if".toList ++ ([' '] ++ (x.text ++ [' ']))))) := rfl
  have hread : Grammar.expr.runWith call (.start ([] ++ _)) = _ :=
    hit_expr_function f (before.map .name) rfl rfl hgap hcolon ⟨rfl, rfl, fun _ => hclosing⟩
  have hne : "(".toList ++ ("if".toList ++ ([' '] ++ (x.text ++ [' ']))) ≠ [] := List.cons_ne_nil _ _
  rw [← htext, if_neg hne] at hread
  rw [List.nil_append] at htext
  rw [← htext, hsolid.trim_append rfl] at hread
  exact ⟨_, hread⟩

/-- The text past the `else` of a group is not understood: it has a parenthesis that is not opened. -/
theorem hit_expr_pastGroup (z : Name) (after : List Operand) (a b : Operation) :
    ∃ stop, Grammar.expr.runWith call (.start ([' '] ++ pastGroup z after a b)) =
      .hit stop (.unparsed (pastGroup z after a b)) := by
  obtain ⟨t, ht⟩ : ∃ t, pastGroup z after a b = z.text ++ (")".toList ++ t) := ⟨_, rfl⟩
  have hsolid : Solid (pastGroup z after a b) := by
    have h := (solid_word z.word).append b.solid (")".toList ++ (after.flatMap (' ' :: ·.text) ++ ([' '] ++
      ("then".toList ++ ([' '] ++ (a.text ++ ([' '] ++ ("else".toList ++ [' ']))))))))
    simp only [List.append_assoc] at h
    exact h
  have hskip : (Cursor.start ([' '] ++ (z.text ++ (")".toList ++ t)))).skipWhile isBlank =
      ⟨[' '].reverse ++ [], z.text ++ (")".toList ++ t)⟩ :=
    skipWhile_append [] (List.all_eq_true.mp rfl) (z.word.head?_not_isBlank _)
  have hrow : Text.Row [z.text] ([] ++ (z.text ++ ([] ++ (")".toList ++ t)))) (")".toList ++ t) :=
    .argument rfl ⟨Or.inl z.word.token, fun _ => rfl⟩ (.done rfl)
  have hread : Grammar.expr.runWith call _ = _ :=
    hit_expr_word z.word z.ne_opening hskip (gap_blank []) rfl rfl hrow ⟨rfl, rfl, nofun⟩
  have htrim := hsolid.trim_append (t := []) rfl
  rw [List.append_nil] at htrim
  have hne : ")".toList ++ t ≠ [] := List.cons_ne_nil _ _
  rw [if_neg hne, ← ht, htrim] at hread
  exact ⟨_, hread⟩

/-- A group in the condition is cut. -/
theorem hit_expr_of_group {c : Operation} {before : List Name} {x y z : Name} {after : List Operand}
    (hc : c.operands = before.map .name ++ .group x y z :: after) (a b : Operation) :
    Grammar.expr.runWith (deeper call) (.start (ifText c.text a.text b.text)) =
      .hit ⟨(ifText c.text a.text b.text).reverse, []⟩
        (.ifThenElse (.unparsed (upToGroup c.function before x)) (.call [y.text]) (.unparsed (pastGroup z after a b))) := by
  have hline : '\n' ∉ ifText c.text a.text b.text :=
    (not_mem_ifText (by decide)).mpr ⟨c.newline_not_mem, a.newline_not_mem, b.newline_not_mem⟩
  have hyes : Grammar.expr.runWith call (.start ([' '] ++ (y.text ++ [' ']))) = _ :=
    hit_expr_word y.word y.ne_opening (skipWhile_append [] (List.all_eq_true.mp rfl) (y.word.head?_not_isBlank [' ']))
      (gap_blank []) rfl rfl (.argument (s := []) rfl (leads_word y.word (gap_blank [])) (.done (s := [' ']) rfl)) Text.stuck_nil
  rw [ifText_of_group hc] at hline ⊢
  refine hit_expr_ifText c.function.word (noThen_upToGroup _ _ _) (passes_wordBlank (y.plain.passesWord 0)) z.word
    (z.ne_of_mem_keywords (by decide)) rfl ((not_mem_ifText (by decide)).mp hline) (hit_expr_upToGroup _ _ _) ⟨_, hyes⟩
    (hit_expr_pastGroup _ _ _ _) ⟨rfl, rfl, rfl⟩

/-- A condition on calls is read to its end. Groups stay whole, in all of its parts, where the condition holds none; the
first group in the condition is cut. -/
theorem parse_condition_on_calls (c a b : Operation) :
    Grammar.expr.parse (.start (ifText c.text a.text b.text)) =
      .hit ⟨(ifText c.text a.text b.text).reverse, []⟩ (conditionalNode c a b) := by
  have hdepth : depthBound (ifText c.text a.text b.text) ≠ 0 := by simp [depthBound]
  obtain ⟨depth, hsucc⟩ := Nat.exists_eq_succ_of_ne_zero hdepth
  rw [Parser.parse, Parser.run, text_start, hsucc]
  cases hcut : cut? c.operands with
  | none =>
    obtain ⟨names, hnames⟩ := eq_map_of_cut?_eq_none hcut
    rw [conditionalNode, hcut]
    exact hit_expr_of_names hnames a b
  | some cut =>
    obtain ⟨before, x, y, z, after⟩ := cut
    have hread : Grammar.expr.runWith (deeper (Rule.run depth)) _ = _ :=
      hit_expr_of_group (eq_append_of_cut?_eq_some hcut) a b
    rw [upToGroup_eq, pastGroup_eq] at hread
    rw [conditionalNode, hcut]
    exact hread

example : Grammar.expr.parse (.start "if f (if x then y else z) then g a else h b".toList) =
    .hit ⟨"if f (if x then y else z) then g a else h b".toList.reverse, []⟩
      (.ifThenElse (.unparsed "f (if x".toList) (.call [['y']]) (.unparsed "z) then g a else h b".toList)) := by
  decide +kernel

end OneLine

end Offside
