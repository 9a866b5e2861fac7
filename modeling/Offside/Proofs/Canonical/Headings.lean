import Offside.Proofs.Canonical.Reading
import Offside.Proofs.Form.Shape
import Offside.Proofs.Grammar.Heads

/-!
# Calls and first lines

The rules that match what is on one line: a call is all the names of its text, and the first line of a definition, a case
or an arm ends in its last word.
-/

namespace Offside

namespace Canonical

open Offside.Parser Cursor

variable {call : Rule → Cursor → Outcome Node} {past t : Text}

/-! ## Calls -/

/-- An argument goes up to a blank or the end of the text. -/
theorem leads_argument {w : Text} (hw : w.Argument) (ht : Gap t) : w.Leads t :=
  ⟨hw, fun _ => ht.head?_not_isTokenChar⟩

theorem leads_word {w : Text} (hw : Word w) (ht : Gap t) : w.Leads t :=
  leads_argument (Or.inl hw.token) ht

/-- Arguments with a blank before each are in a row. -/
theorem row_arguments {ws : List Text} (hws : ∀ w ∈ ws, w.Argument) (ht : t.all isBlank) :
    Text.Row ws (ws.flatMap (' ' :: ·) ++ t) [] := by
  induction ws with
  | nil =>
    rw [List.flatMap_nil, List.nil_append, ← List.append_nil t]
    exact .done ht
  | cons w ws ih =>
    obtain ⟨hw, hws'⟩ := List.forall_mem_cons.mp hws
    have hrow := Text.Row.argument (s := [' ']) (by decide) (leads_argument hw (gap_words ws (gap_of_all ht))) (ih hws')
    simpa using hrow

theorem row_words {ws : List Text} (hws : ∀ w ∈ ws, Word w) (ht : t.all isBlank) :
    Text.Row ws (ws.flatMap (' ' :: ·) ++ t) [] :=
  row_arguments (fun w hw => Or.inl (hws w hw).token) ht

theorem Names.word (names : Names) : ∀ w ∈ names.texts, Word w := by
  intro w hw
  obtain ⟨i, -, rfl⟩ := List.mem_map.mp hw
  exact i.word

theorem Names.text_eq (names : Names) :
    names.text = names.first.name ++ (names.more.map Ident.name).flatMap (' ' :: ·) :=
  intercalate_cons _ _

/-! ## Words that end a line -/

theorem gap_concat (s past : Text) : Gap ((s ++ [' ']).reverse ++ past) := by
  rw [List.reverse_append]
  rfl

/-- Names end in a letter, a digit or `_`. -/
theorem getLast?_words {w : Text} {ws : List Text} (hw : Word w) (hws : ∀ w ∈ ws, Word w) :
    (w ++ ws.flatMap (' ' :: ·)).getLast?.any isWordChar := by
  induction ws generalizing w with
  | nil =>
    rw [List.flatMap_nil, List.append_nil, List.getLast?_eq_some_getLast hw.1]
    exact hw.2 _ (List.getLast_mem hw.1)
  | cons w' ws ih =>
    obtain ⟨hw', hws'⟩ := List.forall_mem_cons.mp hws
    have hlast := ih hw' hws'
    rw [List.flatMap_cons, List.getLast?_append, List.cons_append, List.getLast?_cons]
    cases hl : (w' ++ ws.flatMap (' ' :: ·)).getLast? with
    | none => simp [hl] at hlast
    | some ch => simpa [hl] using hlast

/-- The blanks around names are trimmed. -/
theorem trim_names (names : Names) {s t : Text} (hs : s.all isBlank) (ht : t.all isBlank) :
    (s ++ (names.text ++ t)).trim = names.text := by
  obtain ⟨hfirst, hmore⟩ := List.forall_mem_cons.mp names.word
  have hlast : names.text.getLast?.all (!isBlank ·) := by
    have hword := getLast?_words hfirst hmore
    rw [← Names.text_eq] at hword
    cases hl : names.text.getLast? with
    | none => rfl
    | some ch =>
      rw [hl] at hword
      have hch := isBlank_of_isWordChar (show isWordChar ch by simpa using hword)
      simp [hch]
  have hhead : (names.text ++ t).head?.all (!isBlank ·) := by
    rw [Names.text_eq, List.append_assoc]
    exact hfirst.head?_not_isBlank _
  rw [Text.trim, List.dropWhile_append_of_pos (List.all_eq_true.mp hs), (takeWhile_of_head? hhead).2,
    Text.trimEnd_append_of_all ht, Text.trimEnd_eq_self hlast]

/-- A line that ends in something visible is not trimmed. -/
theorem trimEnd_restOfLine (past t : Text) {before word : Text} (hline : '\n' ∉ before ++ word) (hword : word.getLast?.any (!isBlank ·)) :
    (Cursor.mk past (before ++ (word ++ '\n' :: t))).restOfLine.trimEnd = before ++ word := by
  have hrest : (Cursor.mk past (before ++ (word ++ '\n' :: t))).restOfLine = before ++ word := by
    rw [restOfLine, Text.firstLine, ← List.append_assoc, List.takeWhile_append_of_pos (ne_newline_of_not_mem hline)]
    simp
  rw [hrest]
  refine Text.trimEnd_eq_self ?_
  rw [List.getLast?_append]
  cases hl : word.getLast? with
  | none => simp [hl] at hword
  | some ch => simpa [hl] using hword

/-- A word that ends the line, after a blank or at once, is where the search for it stops. -/
theorem hit_untilLineEndsWith {before word : Text} (hline : '\n' ∉ before ++ word)
    (hbefore : before.getLast?.all isBlank) (hword : word.getLast?.any (!isBlank ·)) :
    (scan (.untilLineEndsWith word)).runWith call ⟨past, before ++ (word ++ '\n' :: t)⟩ =
      .hit ⟨before.reverse ++ past, word ++ '\n' :: t⟩ () := by
  refine hit_scan_append ?_
  simp only [Scanner.reach?, trimEnd_restOfLine past t hline hword, Text.stripSuffix?_append, hbefore, if_true]

/-- What comes before a word that ends the line is captured, and the line is passed. -/
theorem hit_upToLineEnding {before : Text} {word : String} (hline : '\n' ∉ before ++ word.toList)
    (hbefore : before.getLast?.all isBlank) (hword : word.toList.getLast?.any (!isBlank ·))
    (hmatch : (Cursor.mk (before.reverse ++ past) (word.toList ++ '\n' :: t)).matchesWord word.toList) :
    (Grammar.upToLineEnding word (grab untilEnd)).runWith call ⟨past, before ++ (word.toList ++ '\n' :: t)⟩ =
      .hit ⟨word.toList.reverse ++ (before.reverse ++ past), '\n' :: t⟩ (.text before) := by
  have hline' : line.runWith call ⟨word.toList.reverse ++ (before.reverse ++ past), '\n' :: t⟩ = .hit _ () := hit_line
  rw [skipWhile_eq_self rfl] at hline'
  exact hit_sequence (hit_gather_cons (hit_twoPass (hit_untilLineEndsWith hline hbefore hword) hit_grab_untilEnd)
    (hit_gather_cons (hit_skip (hit_keyword_append hmatch)) (hit_gather_cons (hit_skip hline') hit_gather_nil)))

/-! ## Patterns and the heads of cases -/

variable (call) in
/-- The pattern of a branch, from the place where it opens. -/
theorem hit_pattern (b : Branch) (n : Nat) (past t : Text) :
    Grammar.pattern.runWith call ⟨past, b.pattern.text ++ ([' '] ++ ("->".toList ++ '\n' :: t))⟩ =
      .hit ⟨"->".toList.reverse ++ ((b.pattern.text ++ [' ']).reverse ++ past), '\n' :: t⟩ (.pattern b.pattern.text) := by
  have hcontent : (Line.mk n (b.pattern.texts ++ ["->".toList])).content = b.pattern.text ++ [' '] ++ "->".toList := by
    simp [Line.content, Names.texts, intercalate_cons, Names.text_eq]
  have hline := (b.tidy n).visible.2
  rw [hcontent] at hline
  have hmatch : (Cursor.mk ((b.pattern.text ++ [' ']).reverse ++ past) ("->".toList ++ '\n' :: t)).matchesWord
      "->".toList :=
    matchesWord_of_blanks (by decide) (gap_concat _ past) rfl
  have hcapture : (Grammar.upToLineEnding "->" (grab untilEnd)).runWith call
      ⟨past, (b.pattern.text ++ [' ']) ++ ("->".toList ++ '\n' :: t)⟩ = _ :=
    hit_upToLineEnding hline (by rw [List.getLast?_concat]; rfl) (by decide) hmatch
  rw [List.append_assoc] at hcapture
  have htrim : Text.trim (b.pattern.text ++ [' ']) = b.pattern.text := trim_names b.pattern (s := []) rfl (by decide)
  exact hit_assemble hcapture (Form.assemble_pattern htrim)

variable (call) in
/-- The first line of a case expression, from the place where it opens. -/
theorem hit_caseHead (subject : Names) (n : Nat) {past : Text} (hpast : Gap past) (t : Text) :
    Grammar.caseHead.runWith call
        ⟨past, "case".toList ++ ([' '] ++ (subject.text ++ [' ']) ++ ("of".toList ++ '\n' :: t))⟩ =
      .hit ⟨"of".toList.reverse ++ (([' '] ++ (subject.text ++ [' '])).reverse ++ ("case".toList.reverse ++ past)),
        '\n' :: t⟩ (.caseHead subject.text) := by
  have hcontent : (Line.mk n ("case".toList :: subject.texts ++ ["of".toList])).content =
      "case".toList ++ ([' '] ++ (subject.text ++ [' ']) ++ "of".toList) := by
    simp [Line.content, Names.texts, intercalate_cons, Names.text_eq]
  have hline : '\n' ∉ [' '] ++ (subject.text ++ [' ']) ++ "of".toList := by
    have hall := (tidy_case n subject).visible.2
    rw [hcontent, List.mem_append, not_or] at hall
    exact hall.2
  have hmatch : (Cursor.mk (([' '] ++ (subject.text ++ [' '])).reverse ++ ("case".toList.reverse ++ past))
      ("of".toList ++ '\n' :: t)).matchesWord "of".toList := by
    rw [← List.append_assoc [' ']]
    exact matchesWord_of_blanks (by decide) (gap_concat _ _) rfl
  have hcase : (keyword "case").runWith call
      ⟨past, "case".toList ++ ([' '] ++ (subject.text ++ [' ']) ++ ("of".toList ++ '\n' :: t))⟩ = _ :=
    hit_keyword_append (matchesWord_self (word_of_mem_reserved (by decide)) hpast (gap_blank _))
  have hcapture : (Grammar.upToLineEnding "of" (grab untilEnd)).runWith call
      ⟨"case".toList.reverse ++ past, [' '] ++ (subject.text ++ [' ']) ++ ("of".toList ++ '\n' :: t)⟩ = _ :=
    hit_upToLineEnding hline (by rw [← List.append_assoc, List.getLast?_concat]; rfl) (by decide) hmatch
  have htrim : Text.trim ([' '] ++ (subject.text ++ [' '])) = subject.text := trim_names subject (by decide) (by decide)
  exact hit_assemble (hit_sequence (hit_gather_cons (hit_skip hcase) (hit_gather_cons hcapture hit_gather_nil)))
    (Form.assemble_caseHead htrim)

/-! ## Heads of definitions -/

/-- A blank before each of the words and one more is a blank after each and one before. -/
theorem flatMap_concat_blank (ws : List Text) :
    ws.flatMap (' ' :: ·) ++ [' '] = [' '] ++ ws.flatMap (· ++ [' ']) := by
  induction ws with
  | nil => rfl
  | cons w ws ih =>
    rw [List.flatMap_cons, List.flatMap_cons, List.append_assoc, ih]
    simp

variable (call) in
/-- The head of a definition, from the place where it opens to the place where its body does. -/
theorem hit_head (d : Definition) (n : Nat) (past t : Text) :
    ∃ past', Grammar.head.runWith call
        ⟨past, d.name.name ++ ((d.params.map Ident.name).flatMap (' ' :: ·) ++ [' ']) ++ ("=".toList ++ '\n' :: t)⟩ =
      .hit (opening ('\n' :: past') t) (.head ⟨d.name.name, d.params.map Ident.name⟩) := by
  have hcontent : (Line.mk n (d.name.name :: d.params.map Ident.name ++ ["=".toList])).content =
      d.name.name ++ ((d.params.map Ident.name).flatMap (' ' :: ·) ++ [' ']) ++ "=".toList := by
    simp [Line.content, intercalate_cons]
  have hline := (d.tidy n).visible.2
  rw [hcontent] at hline
  have hparams : ∀ w ∈ d.params.map Ident.name, Word w := by
    rw [List.forall_mem_map]
    exact fun i _ => i.word
  have hlast : (d.name.name ++ ((d.params.map Ident.name).flatMap (' ' :: ·) ++ [' '])).getLast?.all isBlank := by
    rw [← List.append_assoc, List.getLast?_concat]
    rfl
  have htrim := trimEnd_restOfLine past t hline rfl
  have hends := (gap_words (d.params.map Ident.name) (gap_blank [])).head?_not_isTokenChar
  have hhead := Grammar.hit_head call htrim hlast d.name.word.token hends (row_words hparams rfl) Text.stuck_nil
  generalize d.name.name ++ ((d.params.map Ident.name).flatMap (' ' :: ·) ++ [' ']) = before at *
  have hnext : (Cursor.mk past (before ++ ("=".toList ++ '\n' :: t))).nextLine =
      opening ('\n' :: ((before ++ "=".toList).reverse ++ past)) t := by
    rw [nextLine, ← List.append_assoc, skipWhile_append _ (ne_newline_of_not_mem hline) rfl, skipWhile_newline]
  rw [hnext] at hhead
  exact ⟨_, hhead⟩

end Canonical

end Offside
