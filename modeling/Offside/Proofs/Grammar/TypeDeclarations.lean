import Offside.Proofs.Grammar.Leaves
import Offside.Proofs.Margins.Texts

/-!
# The lines of a type declaration

A type declaration holds each line of its text that is not blank, trimmed and in order: the first is its head, the others
are the lines of its body. The rule goes over blanks twice, across newlines, and then puts the body together from its lines,
so the module first says what these steps do with the lines of a text.
-/

namespace Offside

/-! ## Visible lines -/

namespace Text

variable {s t : Text} {ts : List Text}

/-- The lines of a text that are not blank, without the blanks around them. -/
def visibleLines (t : Text) : List Text :=
  (t.lines.map trim).filter (!·.isEmpty)

/-- Blanks before a text are trimmed. -/
theorem trim_cons_of_isBlank {ch : Char} (h : isBlank ch) (t : Text) : trim (ch :: t) = t.trim := by
  rw [trim, List.dropWhile_cons_of_pos h, trim]

/-- A line is the first of a text if a newline comes after it. -/
theorem lines_append_newline (h : '\n' ∉ s) (t : Text) : lines (s ++ '\n' :: t) = s :: t.lines := by
  induction s with
  | nil => rfl
  | cons ch s ih =>
    obtain ⟨hch, hs⟩ : '\n' ≠ ch ∧ '\n' ∉ s := by simpa using h
    rw [List.cons_append, lines, ih hs, if_neg (by simpa using hch.symm)]

/-- Lines put together are the lines of what they make up. -/
theorem lines_intercalate (hts : ∀ t ∈ ts, '\n' ∉ t) (hne : ts ≠ []) : lines (['\n'].intercalate ts) = ts := by
  induction ts with
  | nil => exact absurd rfl hne
  | cons t ts ih =>
    obtain ⟨ht, hts'⟩ := List.forall_mem_cons.mp hts
    cases ts with
    | nil => simpa using lines_of_not_mem ht
    | cons t' ts =>
      rw [List.intercalate_cons_cons, List.append_assoc]
      exact (lines_append_newline ht _).trans (congrArg (t :: ·) (ih hts' (by simp)))

/-- A visible line is one line, with nothing to trim, and not empty. -/
theorem of_mem_visibleLines (h : s ∈ t.visibleLines) : s.Phrase ∧ s ≠ [] := by
  obtain ⟨hmem, hne⟩ := List.mem_filter.mp h
  obtain ⟨line, hline, rfl⟩ := List.mem_map.mp hmem
  exact ⟨phrase_trim (newline_not_mem_of_mem_lines hline), by simpa using hne⟩

/-- Blanks before a text, newlines too, make no visible line. -/
theorem visibleLines_append_of_all (h : s.all isBlank) (t : Text) : visibleLines (s ++ t) = t.visibleLines := by
  induction s with
  | nil => rfl
  | cons ch s ih =>
    obtain ⟨hch, hs⟩ : isBlank ch ∧ s.all isBlank := by simpa using h
    obtain ⟨line, more, hlines⟩ := List.exists_cons_of_ne_nil (lines_ne_nil (s ++ t))
    rw [← ih hs, List.cons_append, visibleLines, lines, visibleLines]
    split
    · rfl
    · rw [hlines, List.map_cons, trim_cons_of_isBlank hch, List.map_cons]

/-- A line comes before the visible lines after it, unless it is blank. -/
theorem visibleLines_append (hs : '\n' ∉ s) (ht : t.head?.all (· == '\n')) :
    visibleLines (s ++ t) = [s.trim].filter (!·.isEmpty) ++ t.visibleLines := by
  cases t with
  | nil =>
    rw [List.append_nil, visibleLines, lines_of_not_mem hs]
    exact (List.append_nil _).symm
  | cons ch t =>
    obtain rfl : ch = '\n' := by simpa using ht
    have hnewline : visibleLines ('\n' :: t) = visibleLines t := visibleLines_append_of_all (s := ['\n']) (by decide) t
    rw [hnewline, visibleLines, lines_append_newline hs, List.map_cons, ← List.singleton_append, List.filter_append]
    rfl

end Text

/-! ## Normalised blocks -/

section Blocks

open Text

/-- The lines of a normalised block are the visible lines. Without any the block is empty, which is a line too. -/
theorem lines_normalizeBlock (t : Text) : (lines (normalizeBlock t)).filter (!·.isEmpty) = t.visibleLines := by
  change (lines (['\n'].intercalate t.visibleLines)).filter (!·.isEmpty) = t.visibleLines
  by_cases hnone : t.visibleLines = []
  · rw [hnone]
    rfl
  · rw [lines_intercalate (fun s hs => (of_mem_visibleLines hs).1.oneLine) hnone, List.filter_eq_self]
    exact fun s hs => by simpa using (of_mem_visibleLines hs).2

/-- What is normalised stays as it is. -/
theorem normalizeBlock_normalizeBlock (t : Text) : normalizeBlock (normalizeBlock t) = normalizeBlock t := by
  have htrim : ∀ line ∈ lines (normalizeBlock t), line.trim = line := by
    intro line hline
    by_cases hempty : line = []
    · rw [hempty]
      rfl
    · have hmem : line ∈ t.visibleLines := by
        rw [← lines_normalizeBlock]
        exact List.mem_filter.mpr ⟨hline, by simpa using hempty⟩
      exact (of_mem_visibleLines hmem).1.trim_eq_self
  rw [normalizeBlock, List.map_congr_left htrim, List.map_id', lines_normalizeBlock]
  rfl

end Blocks

/-! ## The rule -/

namespace Cursor

/-- Going past blanks leaves the visible lines. -/
theorem visibleLines_skipWhile (c : Cursor) : (c.skipWhile isBlank).rest.visibleLines = c.rest.visibleLines := by
  have hblank : (c.rest.takeWhile isBlank).all isBlank := by simp
  rw [← Text.visibleLines_append_of_all hblank (c.skipWhile isBlank).rest]
  exact congrArg Text.visibleLines List.takeWhile_append_dropWhile

/-- The visible lines of what is left are the rest of the cursor's line, unless it is blank, and those from the next visible
line on. -/
theorem visibleLines_nextLine (c : Cursor) :
    c.rest.visibleLines = [c.restOfLine.trim].filter (!·.isEmpty) ++ c.nextLine.rest.visibleLines := by
  have hline : '\n' ∉ c.restOfLine := fun hmem => by simpa using List.mem_takeWhile_imp hmem
  have hend : (c.skipWhile (· != '\n')).rest.head?.all (· == '\n') := by
    simpa [next?, bne] using next?_skipWhile c (· != '\n')
  have hrest : c.rest = c.restOfLine ++ (c.skipWhile (· != '\n')).rest := List.takeWhile_append_dropWhile.symm
  rw [hrest, Text.visibleLines_append hline hend, nextLine, visibleLines_skipWhile]

/-- A cursor past the first piece of what it passes goes over the rest of it. -/
theorem slice?_advance_of_rest_eq {c d : Cursor} {s t : Text} (hle : c ≤ d) (h : c.rest = s ++ t ++ d.rest) :
    (c.advance s.length).slice? d = some t := by
  obtain ⟨passed, hrest, hpast⟩ := hle
  obtain rfl : passed = s ++ t := List.append_cancel_right (hrest.symm.trans h)
  obtain ⟨past, rest⟩ := c
  obtain ⟨past', rest'⟩ := d
  simp only at hrest hpast
  subst hrest hpast
  rw [List.append_assoc, advance_length, List.reverse_append, List.append_assoc]
  exact Parser.slice?_append

end Cursor

namespace Grammar

open Offside.Parser Cursor

variable {call : Rule → Cursor → Outcome Node}

/-- A type declaration is read off what comes after its keyword: the head is the next visible line, and the body is
normalised from the lines after it. -/
theorem typeDecl_reads (hcall : Forward call) (c : Cursor) :
    typeDecl.Ensures call c (fun d v => ∃ k : Cursor, (c.advance 4).slice? d = some k.rest ∧
      v = .typeDecl (k.skipWhile isBlank).restOfLine.trim (normalizeBlock (k.skipWhile isBlank).nextLine.rest))
      True .none := by
  refine .named <| .assemble <| .twoPass hcall <| (keywordBlock_ensures hcall c (by decide)).imp
    (fun stop _ _ hle t ht => ?_) (fun _ => trivial) (Effects.le_refl _)
  refine .sequence <| .gather_cons hcall <| .skip <| .keyword (fun hm _ => ?_) fun _ => trivial
  obtain ⟨written, hwritten, -⟩ := rest_of_matchesWord hm
  refine .gather_cons hcall <| .skip <| .spaceOptional fun _ => ?_
  refine .gather_cons hcall <| .grab hcall <| .line fun _ first hfirst _ => ?_
  refine .gather_cons hcall <| .skip <| .spaceOptional fun _ => ?_
  refine .gather_cons hcall <| .grab hcall <| .untilEnd fun _ rest hrest _ => ?_
  obtain rfl : t = "type".toList ++ written := hwritten
  obtain rfl := eq_takeWhile_of_rest_eq hfirst
  have hend (k : Cursor) : (k.advance k.rest.length).rest = [] := List.drop_length
  rw [hend, List.append_nil] at hrest
  subst hrest
  exact .gather_nil ⟨_, rfl, (start ("type".toList ++ written)).advance 4, slice?_advance_of_rest_eq hle ht, rfl⟩

end Grammar

/-- A type declaration keeps every line. What its head and the lines of its body are, but for empty ones, are the lines of
its text after the keyword that are not blank, trimmed and in order, and the body is normalised. -/
theorem type_declarations_keep_every_line {depth : Nat} {c e : Cursor} {v : Node}
    (h : Grammar.typeDecl.run depth c = .hit e v) :
    ∃ written first body, (c.advance 4).slice? e = some written ∧ v = .typeDecl first body ∧
      (first :: Text.lines body).filter (!·.isEmpty) = written.visibleLines ∧ normalizeBlock body = body := by
  obtain ⟨k, hslice, rfl⟩ := (Grammar.typeDecl_reads (Rule.forward depth) c).hits e v h
  refine ⟨k.rest, _, _, hslice, rfl, ?_, normalizeBlock_normalizeBlock _⟩
  rw [← List.singleton_append, List.filter_append, lines_normalizeBlock, ← Cursor.visibleLines_nextLine,
    Cursor.visibleLines_skipWhile]

/-- Blank lines and carriage returns before, between and after the lines are dropped, and so are all indentations. -/
theorem type_declarations_keep_every_line_spread :
    Grammar.typeDecl.run 1 (.start "type \r\n\n  Msg a\r\n\t\n    = A\r\n\r\n  | B c \n\nf = x\n".toList) =
        .hit ⟨"type \r\n\n  Msg a\r\n\t\n    = A\r\n\r\n  | B c \n\n".toList.reverse, "f = x\n".toList⟩
          (.typeDecl "Msg a".toList "= A\n| B c".toList) ∧
      Text.visibleLines " \r\n\n  Msg a\r\n\t\n    = A\r\n\r\n  | B c \n\n".toList =
        ["Msg a".toList, "= A".toList, "| B c".toList] := by
  have h : Grammar.typeDecl.run 1 (.start "type \r\n\n  Msg a\r\n\t\n    = A\r\n\r\n  | B c \n\nf = x\n".toList) =
      .hit ⟨"type \r\n\n  Msg a\r\n\t\n    = A\r\n\r\n  | B c \n\n".toList.reverse, "f = x\n".toList⟩
        (.typeDecl "Msg a".toList "= A\n| B c".toList) := by decide +kernel
  obtain ⟨written, first, body, hslice, hv, hlines, -⟩ := type_declarations_keep_every_line h
  obtain ⟨rfl, rfl⟩ := Node.typeDecl.inj hv
  obtain rfl := Option.some.inj hslice
  exact ⟨h, hlines.symm⟩

end Offside
