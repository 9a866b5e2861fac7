import Mathlib.Tactic.MkIffOfInductiveProp
import Offside.Proofs.Grammar.Noise

/-!
# Where declarations open

What comes at the start of a declaration, told from the text alone. A header and a type need no more than their keyword,
while an import needs a name that goes with it, on the keyword's line or nested under it: how far the line of the keyword
is indented decides whether a name on a later line does.
-/

namespace Offside

namespace Cursor

/-- Where the name of an import is looked for: past the keyword and the blanks after it. -/
def importName (c : Cursor) : Cursor :=
  (c.advance "import".toList.length).skipWhile isBlank

/-- An import opens at the cursor: the keyword, and a name that is indented further. A name on the line of the keyword is. -/
structure OpensImport (c : Cursor) : Prop where
  /-- The keyword comes next. -/
  keyword : c.matchesWord "import".toList
  /-- A token comes after it. -/
  name : c.importName.next?.any isTokenChar
  /-- More comes before the name on its line than before the keyword. -/
  nested : c.lead.length < c.importName.lead.length

/-- A declaration other than a definition opens at the cursor. -/
@[mk_iff]
inductive OpensDeclaration (c : Cursor) : Prop where
  | header (keyword : c.matchesWord "module".toList)
  | importing (opens : c.OpensImport)
  | signature (opens : c.OpensSignature)
  | typing (keyword : c.matchesWord "type".toList)

variable {c d : Cursor} {word t rest : Text} {level : Nat}

/-! ## Words in a part of the text -/

/-- Where only blanks come before on the line, a word stands on its own just as at the start of a text. -/
theorem matchesWord_start_rest (h : c.atLineStart) (word : Text) :
    (start c.rest).matchesWord word = c.matchesWord word := by
  have hprev : (start c.rest).prev?.all isBlank = c.prev?.all isBlank := by
    rw [prev?_of_atLineStart h]
    rfl
  rw [matchesWord, hprev]
  rfl

/-- In a text of its own that goes beyond it, a word stands on its own just as before. -/
theorem matchesWord_start (h : c.matchesWord word) (ht : c.rest = t ++ rest) (hlength : word.length ≤ t.length) :
    (start t).matchesWord word := by
  simp only [matchesWord, Bool.and_eq_true, peek, List.isPrefixOf_iff_prefix, ht] at h
  obtain ⟨⟨⟨hne, hprefix⟩, -⟩, hnext⟩ := h
  have hpeek : word <+: t := List.prefix_of_prefix_length_le hprefix (List.prefix_append t rest) hlength
  have hafter : ((start t).advance word.length).next?.all isBlank ∨
      ((start t).advance word.length).next? = (c.advance word.length).next? := by
    simp only [next?, advance, start, ht, List.drop_append_of_le_length hlength]
    cases t.drop word.length with
    | nil => exact Or.inl rfl
    | cons ch more => exact Or.inr rfl
  simp only [matchesWord, Bool.and_eq_true, peek, start, List.isPrefixOf_iff_prefix]
  refine ⟨⟨⟨hne, hpeek⟩, by simp [prev?]⟩, ?_⟩
  rcases hafter with hblank | hsame
  · exact Bool.or_eq_true_iff.mpr (Or.inr hblank)
  · exact hsame ▸ hnext

/-- A blank comes after a word that ends in a letter, a digit or `_`, or the end of the text does. -/
theorem next?_after_matchesWord (h : c.matchesWord word) (hword : word.getLast?.any isWordChar) :
    (c.advance word.length).next?.all isBlank := by
  simp only [matchesWord, hword, Bool.and_eq_true] at h
  simpa using h.2

/-! ## Past a word and blanks -/

/-- Within the line, what is passed is on the line. -/
theorem lead_advance (h : c.rest = t ++ rest) (hline : '\n' ∉ t) : (c.advance t.length).lead = t.reverse ++ c.lead := by
  have hback : ∀ ch ∈ t.reverse, (ch != '\n') = true := ne_newline_of_not_mem (by simpa using hline)
  rw [lead, advance, h, List.take_left, List.takeWhile_append_of_pos hback]
  rfl

/-- Blanks with a newline among them lead to the next line. -/
theorem skipWhile_isBlank_of_newline (h : '\n' ∈ c.rest.takeWhile isBlank) : c.skipWhile isBlank = c.nextLine := by
  obtain ⟨blanks, hblanks⟩ : ∃ blanks, blanks = c.rest.takeWhile isBlank := ⟨_, rfl⟩
  have hline : c.rest.takeWhile (· != '\n') = blanks.takeWhile (· != '\n') := by
    rw [← List.takeWhile_append_dropWhile (p := isBlank) (l := c.rest), ← hblanks, List.takeWhile_append, if_neg]
    intro hlength
    have hall := List.takeWhile_eq_self_iff.mp (List.IsPrefix.eq_of_length (List.takeWhile_prefix _) hlength)
    simpa using hall '\n' (hblanks ▸ h)
  have hsplit : c.rest.takeWhile isBlank =
      c.rest.takeWhile (· != '\n') ++ blanks.dropWhile (· != '\n') := by
    rw [hline, List.takeWhile_append_dropWhile, hblanks]
  rw [nextLine, skipWhile_eq_advance c (· != '\n'), skipWhile_advance hsplit]

/-- The next line opens after the blanks that the rest of a line ends in. -/
theorem nextLine_append (past : Text) {w blanks t : Text} (hw : '\n' ∉ w) (hblanks : blanks.all isBlank)
    (hnewline : '\n' ∈ blanks) (ht : t.head?.all (!isBlank ·)) :
    (Cursor.mk past (w ++ (blanks ++ t))).nextLine = ⟨blanks.reverse ++ (w.reverse ++ past), t⟩ := by
  have hrun : (blanks ++ t).takeWhile isBlank = blanks := by
    rw [List.takeWhile_append_of_pos (List.all_eq_true.mp hblanks), (takeWhile_of_head? ht).1, List.append_nil]
  have hskip := skipWhile_isBlank_of_newline (c := ⟨w.reverse ++ past, blanks ++ t⟩) (by rwa [hrun])
  rw [skipWhile_append _ (List.all_eq_true.mp hblanks) ht] at hskip
  rw [nextLine, skipWhile_append_of_all past (ne_newline_of_not_mem hw), hskip, nextLine]

/-- Without a newline among them, blanks lead to what is visible before the next line. -/
theorem skipWhile_isBlank_lt_nextLine (h : '\n' ∉ c.rest.takeWhile isBlank)
    (hvisible : (c.skipWhile isBlank).next?.any (!isBlank ·)) : c.skipWhile isBlank < c.nextLine := by
  have hsplit : c.rest.takeWhile (· != '\n') =
      c.rest.takeWhile isBlank ++ (c.rest.dropWhile isBlank).takeWhile (· != '\n') := by
    have happend := List.takeWhile_append_dropWhile (p := isBlank) (l := c.rest)
    rw [← List.takeWhile_append_of_pos (ne_newline_of_not_mem h), happend]
  have hline : (c.skipWhile isBlank).skipWhile (· != '\n') = c.skipWhile (· != '\n') := by
    rw [skipWhile_eq_advance c isBlank, skipWhile_advance hsplit]
  rw [nextLine, ← hline]
  refine lt_of_lt_of_le ?_ (le_skipWhile _ _)
  cases hr : (c.skipWhile isBlank).rest with
  | nil => simp [next?, hr] at hvisible
  | cons ch rest =>
    have hch : isBlank ch = false := by simpa [next?, hr] using hvisible
    exact lt_iff.mpr ⟨le_skipWhile _ _, length_rest_skipWhile_lt hr (ne_newline_of_not_isBlank hch)⟩

/-! ## Nested lines -/

theorem indentLevel_of_matchesWord (hstart : c.atLineStart) (h : c.matchesWord word)
    (hword : word.head?.any (!isBlank ·)) : c.indentLevel = .ok c.lead.length :=
  indentLevel_eq_ok_iff.mpr ⟨next?_of_matchesWord h hword, hstart, rfl⟩

/-- A nested block goes on from the next line. -/
theorem skipLines_of_block (hlevel : c.indentLevel = .ok level) (h : c.extentStop .block = .ok d) :
    c.nextLine.skipLines (level < ·) = .ok d := by
  obtain ⟨ch, rest, hrest, -⟩ := next?_of_indentLevel_eq_ok hlevel
  simpa [extentStop, skipBlock, isDone, hrest, hlevel, Except.bind] using h

/-- The next line is in a nested block just if it is indented further. -/
theorem nextLine_lt_block_iff (hlevel : c.indentLevel = .ok level) (hvisible : c.nextLine.next?.any (!isBlank ·))
    (h : c.extentStop .block = .ok d) : c.nextLine < d ↔ level < c.nextLine.lead.length := by
  have hlines := skipLines_of_block hlevel h
  have hopens : c.nextLine.OpensLine := by
    refine (nextLine_fresh c).resolve_left fun hdone => ?_
    rw [next?, isDone_iff.mp hdone] at hvisible
    cases hvisible
  obtain ⟨line, hline⟩ := hopens
  obtain rfl : line = c.nextLine.lead.length := (indentLevel_eq_ok_iff.mp hline).2.2
  by_cases hlt : level < c.nextLine.lead.length
  · rw [skipLines_of_keep hline (by simpa using hlt)] at hlines
    have hahead : c.nextLine < c.nextLine.nextLine :=
      lt_iff.mpr ⟨le_nextLine _, length_rest_nextLine_lt hline⟩
    exact iff_of_true (lt_of_lt_of_le hahead (le_of_skipLines hlines)) hlt
  · rw [skipLines_of_not_keep hline (by simpa using hlt)] at hlines
    obtain rfl : c.nextLine = d := by simpa using hlines
    exact iff_of_false (lt_irrefl _) hlt

/-- Past a word that opens a nested block, what is visible is in the block just if it is indented further than the word. -/
theorem afterWord_lt_block_iff (hlevel : c.indentLevel = .ok c.lead.length) (hm : c.matchesWord word) (hword : '\n' ∉ word)
    (hvisible : ((c.advance word.length).skipWhile isBlank).next?.any (!isBlank ·)) (h : c.extentStop .block = .ok d) :
    (c.advance word.length).skipWhile isBlank < d ↔
      c.lead.length < ((c.advance word.length).skipWhile isBlank).lead.length := by
  have hnext : (c.advance word.length).nextLine = c.nextLine := by
    rw [nextLine, endOfLine_of_matchesWord hm hword, nextLine]
  -- With a newline among the blanks this is about the next visible line; without one the place is on the line of the word.
  by_cases hline : '\n' ∈ (c.advance word.length).rest.takeWhile isBlank
  · rw [skipWhile_isBlank_of_newline hline, hnext] at hvisible ⊢
    exact nextLine_lt_block_iff hlevel hvisible h
  · obtain ⟨rest, hrest, hne⟩ := rest_of_matchesWord hm
    have hlead : ((c.advance word.length).skipWhile isBlank).lead =
        ((c.advance word.length).rest.takeWhile isBlank).reverse ++ (word.reverse ++ c.lead) := by
      rw [skipWhile_eq_advance, lead_advance List.takeWhile_append_dropWhile.symm hline, lead_advance hrest hword]
    have hblock := le_of_skipLines (skipLines_of_block hlevel h)
    refine iff_of_true (lt_of_lt_of_le (skipWhile_isBlank_lt_nextLine hline hvisible) (hnext ▸ hblock)) ?_
    have hpos := List.length_pos_iff.mpr hne
    rw [hlead, List.length_append, List.length_append, List.length_reverse, List.length_reverse]
    omega

/-! ## What a block contains, as a text of its own -/

/-- Of two places of a text, the one after which less is left is the later. -/
theorem le_of_text_eq (htext : c.text = d.text) (hrest : c.rest = t ++ d.rest) : c ≤ d := by
  rw [text, text, hrest, ← List.append_assoc] at htext
  have hpast := congrArg List.reverse (List.append_cancel_right htext)
  rw [List.reverse_append, List.reverse_reverse, List.reverse_reverse] at hpast
  exact ⟨t, hrest, hpast.symm⟩

/-- A word that opens a block is in the block. -/
theorem matchesWord_of_block (hlevel : c.indentLevel = .ok level) (hm : c.matchesWord word) (hword : '\n' ∉ word)
    (h : c.extentStop .block = .ok d) (ht : c.rest = t ++ d.rest) : (start t).matchesWord word := by
  refine matchesWord_start hm ht ?_
  obtain ⟨rest, hrest, -⟩ := rest_of_matchesWord hm
  have hline : c.advance word.length ≤ d := by
    refine le_trans (le_nextLine _) ?_
    rw [nextLine, endOfLine_of_matchesWord hm hword]
    exact le_of_skipLines (skipLines_of_block hlevel h)
  have hlength := length_rest_le_of_le hline
  have hall := congrArg List.length hrest
  rw [length_rest_advance] at hlength
  rw [ht, List.length_append] at hlength hall
  rw [List.length_append] at hall
  omega

/-- What is visible past blanks in a part of the text is what is visible there in the whole, if the part goes beyond it. -/
theorem next?_skipWhile_start (hle : c ≤ d) (ht : c.rest = t ++ d.rest) (hvisible : d.next?.all (!isBlank ·)) {n : Nat}
    (hn : n ≤ t.length) (test : Char → Bool) :
    (((start t).advance n).skipWhile isBlank).next?.any test ↔
      ((c.advance n).skipWhile isBlank).next?.any test ∧ (c.advance n).skipWhile isBlank < d := by
  have hdrop : (c.advance n).rest = t.drop n ++ d.rest := by rw [advance, ht, List.drop_append_of_le_length hn]
  have hstart : ((start t).advance n).skipWhile isBlank = ⟨_, (t.drop n).dropWhile isBlank⟩ := rfl
  cases hleft : (t.drop n).dropWhile isBlank with
  | nil =>
    -- The blanks go on to the end of the part, and end where it does.
    have hblank := List.dropWhile_eq_nil_iff.mp hleft
    have hsame : ((c.advance n).skipWhile isBlank).rest = d.rest := by
      rw [skipWhile, hdrop, List.dropWhile_append_of_pos hblank]
      exact (takeWhile_of_head? hvisible).2
    rw [hstart, hleft]
    refine iff_of_false (by simp [next?]) fun h => ?_
    have hlt := (lt_iff.mp h.2).2
    rw [hsame] at hlt
    exact lt_irrefl _ hlt
  | cons ch more =>
    have hplace : ((c.advance n).skipWhile isBlank).rest = (ch :: more) ++ d.rest := by
      rw [skipWhile, hdrop, List.dropWhile_append, hleft]
      rfl
    have hahead : (c.advance n).skipWhile isBlank < d := by
      refine lt_iff.mpr ⟨le_of_text_eq (by simp [text_eq_of_le hle]) hplace, ?_⟩
      rw [hplace, List.length_append, List.length_cons]
      omega
    rw [hstart, hleft]
    simp [next?, hplace, hahead]

/-- An import opens just if the text of its block has a name after the keyword. -/
theorem opensImport_iff_of_block (hstart : c.atLineStart) (hm : c.matchesWord "import".toList)
    (h : c.extentStop .block = .ok d) (ht : c.rest = t ++ d.rest) :
    c.OpensImport ↔ (start t).importName.next?.any isTokenChar := by
  have hlevel := indentLevel_of_matchesWord hstart hm (by decide)
  obtain ⟨more, hrest, -⟩ := rest_of_matchesWord (matchesWord_of_block hlevel hm (by decide) h ht)
  have hlength : "import".toList.length ≤ t.length := by
    rw [show t = "import".toList ++ more from hrest, List.length_append]
    omega
  have hname := next?_skipWhile_start (le_of_skipBlock h) ht (next?_of_skipBlock h) hlength isTokenChar
  have hnested (hvisible : c.importName.next?.any isTokenChar) : c.importName < d ↔ c.lead.length < c.importName.lead.length :=
    afterWord_lt_block_iff hlevel hm (by decide) (next?_visible_of_token hvisible) h
  constructor
  · intro hopens
    exact hname.mpr ⟨hopens.name, (hnested hopens.name).mpr hopens.nested⟩
  · intro htoken
    obtain ⟨hvisible, hlt⟩ := hname.mp htoken
    exact ⟨hm, hvisible, (hnested hvisible).mp hlt⟩

end Cursor

end Offside
