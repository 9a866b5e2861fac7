import Offside.Proofs.Cursor.Prefix
import Offside.Proofs.Grammar.Noise

/-!
# Fillers

A filler is a text that means nothing wherever code may begin: blanks, a block comment, a line comment with its newline.
What does not change when the blanks or a comment that come next are passed does not change when a row of fillers is,
`Filler.Blind.fillers`. The end of the noise is the first case, `Filler.blind_noiseStop`.
-/

namespace Offside

open Offside.Parser Cursor

/-- A text that means nothing wherever code may begin. -/
inductive Filler where
  /-- Blanks, of any kind and number. -/
  | blanks (content : Text) (blank : content.all isBlank)
  /-- A block comment, which ends at its first closing mark. -/
  | blockComment (content : Text) (closed : ¬"-\x7d".toList <:+: content)
  /-- A line comment, with the newline that ends it. -/
  | lineComment (content : Text) (line : '\n' ∉ content)

namespace Filler

/-- The filler as it is written. -/
def text : Filler → Text
  | blanks content _ => content
  | blockComment content _ => "\x7b-".toList ++ (content ++ "-\x7d".toList)
  | lineComment content _ => "--".toList ++ content ++ ['\n']

/-- Fillers in a row. -/
def textOf (fillers : List Filler) : Text :=
  fillers.flatMap text

/-! ## Comments are matched whole -/

/-- Before a closing mark that is the first, none is found. -/
theorem indexOf?_closing {content : Text} (h : ¬"-\x7d".toList <:+: content) (t : Text) :
    Text.indexOf? (content ++ ("-\x7d".toList ++ t)) "-\x7d".toList = some content.length := by
  induction content with
  | nil => rfl
  | cons ch content ih =>
    have hrest : ¬"-\x7d".toList <:+: content := fun hin => h (hin.trans (List.infix_cons (List.infix_refl _)))
    have hfirst : "-\x7d".toList.isPrefixOf (ch :: (content ++ ("-\x7d".toList ++ t))) = false := by
      rw [Bool.eq_false_iff]
      intro hprefix
      obtain ⟨s, hs⟩ := List.isPrefixOf_iff_prefix.mp hprefix
      change '-' :: '\x7d' :: s = ch :: (content ++ ('-' :: '\x7d' :: t)) at hs
      obtain ⟨rfl, htail⟩ := List.cons.inj hs
      cases content with
      | nil => exact absurd (List.cons.inj htail).1 (by decide)
      | cons next content =>
        obtain rfl : '\x7d' = next := (List.cons.inj htail).1
        exact h ⟨[], content, rfl⟩
    rw [List.cons_append, Text.indexOf?, hfirst, ih hrest]
    rfl

section Comments

variable {call : Rule → Cursor → Outcome Node} {past : Text}

/-- A block comment that begins with a bar is one for documentation, and reads to the same closing mark. -/
theorem hit_docComment {content : Text} (h : ¬"-\x7d".toList <:+: content) (t : Text) :
    Grammar.docComment.runWith call ⟨past, "\x7b-|".toList ++ (content ++ ("-\x7d".toList ++ t))⟩ =
      .hit ⟨("\x7b-|".toList ++ (content ++ "-\x7d".toList)).reverse ++ past, t⟩ () := by
  have hopen := hit_symbol "\x7b-|" call past (content ++ ("-\x7d".toList ++ t)) (by decide)
  have huntil : (scan (.untilIncluding "-\x7d".toList)).runWith call
      ⟨"\x7b-|".toList.reverse ++ past, (content ++ "-\x7d".toList) ++ t⟩ =
      .hit ⟨(content ++ "-\x7d".toList).reverse ++ ("\x7b-|".toList.reverse ++ past), t⟩ () := by
    refine hit_scan_append ?_
    rw [Scanner.reach?, List.append_assoc, indexOf?_closing h t, Option.map_some, List.length_append]
  rw [List.append_assoc, ← List.append_assoc _ _ past, ← List.reverse_append] at huntil
  exact hit_seq (f := fun _ value => value) hopen huntil

/-- A block comment that does not begin with a bar is not one for documentation. -/
theorem miss_docComment {content t : Text} (hbar : content.head? ≠ some '|') :
    Grammar.docComment.runWith call ⟨past, "\x7b-".toList ++ (content ++ ("-\x7d".toList ++ t))⟩ = .miss := by
  refine miss_seq (miss_keyword ?_)
  rw [Bool.eq_false_iff]
  intro hm
  obtain ⟨rest, hrest, -⟩ := rest_of_matchesWord hm
  cases content with
  | nil => cases hrest
  | cons ch content =>
    change '\x7b' :: '-' :: ch :: (content ++ ("-\x7d".toList ++ t)) = '\x7b' :: '-' :: '|' :: rest at hrest
    obtain rfl : ch = '|' := (List.cons.inj (List.cons.inj (List.cons.inj hrest).2).2).1
    exact hbar rfl

theorem hit_plainComment {content : Text} (h : ¬"-\x7d".toList <:+: content) (t : Text) :
    Grammar.blockComment.runWith call ⟨past, "\x7b-".toList ++ (content ++ ("-\x7d".toList ++ t))⟩ =
      .hit ⟨("\x7b-".toList ++ (content ++ "-\x7d".toList)).reverse ++ past, t⟩ () := by
  have hopen := hit_symbol "\x7b-" call past (content ++ ("-\x7d".toList ++ t)) (by decide)
  have huntil : (scan (.untilLiteral "-\x7d".toList)).runWith call
      ⟨"\x7b-".toList.reverse ++ past, content ++ ("-\x7d".toList ++ t)⟩ = _ := hit_scan_append (indexOf?_closing h t)
  have hclose := hit_symbol "-\x7d" call (content.reverse ++ ("\x7b-".toList.reverse ++ past)) t (by decide)
  rw [List.reverse_append, List.reverse_append, List.append_assoc, List.append_assoc]
  exact hit_seq (f := fun _ value => value) hopen (hit_seq (f := fun _ value => value) huntil hclose)

/-- A block comment is a comment, whether or not it is one for documentation. -/
theorem hit_blockComment {content : Text} (h : ¬"-\x7d".toList <:+: content) (t : Text) :
    Grammar.comment.runWith call ⟨past, (blockComment content h).text ++ t⟩ =
      .hit ⟨(blockComment content h).text.reverse ++ past, t⟩ () := by
  have hstart : (blockComment content h).text ++ t = "\x7b-".toList ++ (content ++ ("-\x7d".toList ++ t)) := by
    simp only [text, List.append_assoc]
  rw [hstart]
  by_cases hbar : content.head? = some '|'
  · cases content with
    | nil => cases hbar
    | cons bar content =>
      obtain rfl : bar = '|' := by simpa using hbar
      have hrest : ¬"-\x7d".toList <:+: content := fun hin => h (hin.trans (List.infix_cons (List.infix_refl _)))
      exact firstOf_of_hit (hit_docComment hrest t)
  · exact (firstOf_of_miss (miss_docComment hbar)).trans (firstOf_of_hit (hit_plainComment h t))

/-- A line comment is a comment, up to its newline or the end of the text. -/
theorem hit_lineComment {content t : Text} (h : '\n' ∉ content) (ht : t.head?.all (· == '\n')) :
    Grammar.comment.runWith call ⟨past, "--".toList ++ content ++ t⟩ =
      .hit ⟨("--".toList ++ content).reverse ++ past, t⟩ () := by
  rw [List.append_assoc, List.reverse_append, List.append_assoc]
  have hdoc : Grammar.docComment.runWith call ⟨past, "--".toList ++ (content ++ t)⟩ = .miss := miss_seq (miss_keyword rfl)
  have hblock : Grammar.blockComment.runWith call ⟨past, "--".toList ++ (content ++ t)⟩ = .miss :=
    miss_seq (miss_keyword rfl)
  have hopen := hit_symbol "--" call past (content ++ t) (by decide)
  have hline : line.runWith call ⟨"--".toList.reverse ++ past, content ++ t⟩ = _ := hit_line
  rw [skipWhile_append _ (ne_newline_of_not_mem h) (by simpa [bne] using ht)] at hline
  have hcomment : Grammar.lineComment.runWith call ⟨past, "--".toList ++ (content ++ t)⟩ = _ :=
    hit_seq (f := fun _ value => value) hopen hline
  exact (firstOf_of_miss hdoc).trans ((firstOf_of_miss hblock).trans (firstOf_of_hit hcomment))

end Comments

/-! ## What fillers do not change -/

/-- A quantity at the places of a text does not change when the blanks or a comment that come next are passed. -/
structure Blind {α : Type} (f : Cursor → α) : Prop where
  /-- Passing blanks does not change it. -/
  blanks : ∀ c : Cursor, f (c.skipWhile isBlank) = f c
  /-- Passing a comment does not change it. -/
  comment : ∀ c d : Cursor, c.next?.all (!isBlank ·) → Grammar.comment.run 0 c = .hit d () → f c = f d

variable {α : Type} {f : Cursor → α} (hf : Blind f)

include hf

theorem Blind.filler (filler : Filler) (past t : Text) :
    f ⟨past, filler.text ++ t⟩ = f ⟨filler.text.reverse ++ past, t⟩ := by
  have hblanks {w : Text} (hw : w.all isBlank) (past t : Text) : f ⟨past, w ++ t⟩ = f ⟨w.reverse ++ past, t⟩ := by
    rw [← hf.blanks, ← hf.blanks ⟨w.reverse ++ past, t⟩, skipWhile_append_of_all past (List.all_eq_true.mp hw)]
  cases filler with
  | blanks content blank => exact hblanks blank past t
  | blockComment content closed => exact hf.comment _ _ rfl (hit_blockComment closed t)
  | lineComment content line =>
    have hpassed : Grammar.comment.run 0 ⟨past, "--".toList ++ content ++ '\n' :: t⟩ = _ := hit_lineComment line rfl
    have hcomment := hf.comment _ _ rfl hpassed
    have hnewline := hblanks (w := ['\n']) (by decide) (("--".toList ++ content).reverse ++ past) t
    rw [text, List.append_assoc, List.reverse_append, List.append_assoc]
    exact hcomment.trans hnewline

/-- What is blind to fillers is the same before and after a row of them. -/
theorem Blind.fillers (fillers : List Filler) (past t : Text) :
    f ⟨past, textOf fillers ++ t⟩ = f ⟨(textOf fillers).reverse ++ past, t⟩ := by
  induction fillers generalizing past with
  | nil => rfl
  | cons filler fillers ih =>
    rw [textOf, List.flatMap_cons, List.append_assoc, hf.filler, ← textOf, ih, List.reverse_append, List.append_assoc]

omit hf

open Grammar in
/-- Where the noise ends does not change. -/
theorem blind_noiseStop : Blind noiseStop where
  blanks := noiseStop_skipWhile
  comment c d hnext hcomment := by
    have hblank : spaceRequired.run 0 c = .miss := miss_spaceRequired hnext
    have hnoise : noise.run 0 c = .hit d () := (firstOf_of_miss hblank).trans (firstOf_of_hit hcomment)
    exact noiseStop_of_hit hnoise

end Filler

end Offside
