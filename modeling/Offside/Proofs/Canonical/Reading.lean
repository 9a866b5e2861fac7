import Offside.Proofs.Canonical.Places

/-!
# Reading blocks

A parser reads a block if it matches from where the block opens to where the next line does, whatever that is, as long as
it is less far in. From parsers that read blocks come parsers that read what is put together from them: the lines under
a keyword, and blocks one after the other.
-/

namespace Offside

namespace Canonical

open Offside.Parser Cursor

/-! ## Blocks -/

/-- A run of lines, the first of which is just so far in and the others at least, that begins with a word at which no
noise begins. -/
def Block (n : Nat) (ls : List Line) : Prop :=
  Within n ls ∧ ∃ w ws ls', ls = ⟨n, w :: ws⟩ :: ls' ∧ Word w ∧ "module".toList ≠ w ∧ "import".toList ≠ w

/-- The place where a line opens after what comes before it. -/
def opening (past t : Text) : Cursor :=
  (Cursor.mk past t).skipWhile isBlank

theorem opening_line {l : Line} {ls : List Line} (hl : l.Tidy) (past tail : Text) :
    opening past (textOf (l :: ls) ++ tail) = ⟨spaces l.indent ++ past, l.content ++ '\n' :: (textOf ls ++ tail)⟩ := by
  rw [opening, textOf_cons, List.append_assoc, Line.skipWhile_text hl.visible, Line.opened]

/-- Where a block opens its first word comes next. -/
theorem opening_cons {n : Nat} {w : Text} {ws : List Text} {ls : List Line} (hl : (Line.mk n (w :: ws)).Tidy)
    (past tail : Text) :
    opening past (textOf (⟨n, w :: ws⟩ :: ls) ++ tail) =
      ⟨spaces n ++ past, w ++ (ws.flatMap (' ' :: ·) ++ '\n' :: (textOf ls ++ tail))⟩ := by
  rw [opening_line hl]
  simp [Line.content, intercalate_cons]

/-- At the end of the text nothing opens. -/
theorem opening_of_all (past : Text) {tail : Text} (h : tail.all isBlank) :
    opening past tail = ⟨tail.reverse ++ past, []⟩ := by
  rw [List.all_eq_true] at h
  have hskip : (Cursor.mk past (tail ++ [])).skipWhile isBlank = _ := skipWhile_append_of_all past h
  rw [List.append_nil] at hskip
  rw [opening, hskip]
  rfl

theorem gap_spaces (n : Nat) {past : Text} (h : AtStart past) : Gap (spaces n ++ past) :=
  gap_append (all_isBlank_spaces n) (gap_of_atStart h)

/-- A block that is less far in closes the lines before it. -/
theorem Block.closes {m n : Nat} {ls : List Line} (h : Block m ls) (hlt : m < n) (tail : Text) :
    Closes n (textOf ls ++ tail) := by
  obtain ⟨-, w, ws, ls', rfl, hw, -⟩ := h
  refine Or.inr ⟨m, w ++ (ws.flatMap (' ' :: ·) ++ '\n' :: (textOf ls' ++ tail)), ?_, hlt, ?_⟩
  · simp [Line.text_eq, Line.content, intercalate_cons]
  · obtain ⟨ch, w, rfl⟩ := List.exists_cons_of_ne_nil hw.1
    have hch := isBlank_of_isWordChar (hw.2 ch (by simp))
    simp [hch]

/-- After the lines of a block a line starts. -/
theorem Block.atStart {n : Nat} {ls : List Line} (h : Block n ls) (past : Text) : AtStart ((textOf ls).reverse ++ past) := by
  obtain ⟨-, w, ws, ls', rfl, -⟩ := h
  rcases List.eq_nil_or_concat (⟨n, w :: ws⟩ :: ls') with hnil | ⟨init, last, hlast⟩
  · cases hnil
  · rw [hlast]
    simp [Line.reverse_text, atStart_newline]

/-- Blocks that are just as far in are a block together. -/
theorem block_flatMap {α : Type} {n : Nat} {f : α → List Line} {x : α} {xs : List α}
    (h : ∀ y ∈ x :: xs, Block n (f y)) : Block n ((x :: xs).flatMap f) := by
  refine ⟨within_flatMap fun y hy => (h y hy).1, ?_⟩
  obtain ⟨-, w, ws, ls, hls, hw⟩ := h x (by simp)
  exact ⟨w, ws, ls ++ xs.flatMap f, by rw [List.flatMap_cons, hls, List.cons_append], hw⟩

/-! ## Noise before a block -/

theorem noColon_of_lexeme {s w : Text} (hs : s.all isBlank) (hw : Lexeme w) (t : Text) : NoColon (s ++ (w ++ t)) := by
  obtain ⟨ch, w, rfl⟩ := List.exists_cons_of_ne_nil hw.1
  have hblank := hw.not_isBlank ch (by simp)
  have hcolon : ch ≠ ':' := by
    rintro rfl
    rcases hw.2 with hword | hsymbol
    · exact absurd (hword ':' (by simp)) (by decide)
    · exact (hsymbol ':' (by simp)).2.2 rfl
  rw [NoColon, List.dropWhile_append_of_pos (List.all_eq_true.mp hs)]
  simp [hblank, hcolon]

theorem noColon_of_all {t : Text} (h : t.all isBlank) : NoColon t := by
  have hdrop := List.dropWhile_eq_nil_iff.mpr (List.all_eq_true.mp h)
  simp [NoColon, hdrop]

/-- Words with a blank before each come before no colon. -/
theorem noColon_words {ws : List Text} (hws : ∀ w ∈ ws, Lexeme w) {t : Text} (ht : ws ≠ [] ∨ NoColon t) :
    NoColon (ws.flatMap (' ' :: ·) ++ t) := by
  cases ws with
  | nil => exact ht.resolve_left fun h => h rfl
  | cons w ws =>
    rw [List.flatMap_cons, List.append_assoc]
    exact noColon_of_lexeme (s := [' ']) (by decide) (hws w (by simp)) _

/-- Lines come before no colon, if nothing but blanks follows them. -/
theorem noColon_lines {m : Nat} {ls : List Line} {tail : Text} (hls : Within m ls) (htail : tail.all isBlank) :
    NoColon ('\n' :: (textOf ls ++ tail)) := by
  cases ls with
  | nil =>
    refine noColon_of_all ?_
    rw [textOf_nil, List.nil_append, List.all_cons, htail]
    rfl
  | cons l ls =>
    obtain ⟨⟨⟨hne, hwords⟩, -⟩, -⟩ := List.forall_mem_cons.mp hls
    obtain ⟨w, ws, hl⟩ := List.exists_cons_of_ne_nil hne
    have hw := hwords w (by rw [hl]; simp)
    have htext : '\n' :: (textOf (l :: ls) ++ tail) =
        ('\n' :: spaces l.indent) ++ (w ++ (ws.flatMap (' ' :: ·) ++ '\n' :: (textOf ls ++ tail))) := by
      simp [Line.text_eq, Line.content, hl, intercalate_cons]
    rw [htext]
    refine noColon_of_lexeme ?_ hw _
    rw [List.all_cons, all_isBlank_spaces]
    rfl

/-- The noise before a line of a program is the blanks. -/
theorem noiseStop_line {m n : Nat} {w : Text} {ws : List Text} {ls : List Line} {past tail : Text} {c : Cursor}
    (hc : c.skipWhile isBlank = opening past (textOf (⟨n, w :: ws⟩ :: ls) ++ tail))
    (hwithin : Within m (⟨n, w :: ws⟩ :: ls)) (hw : Word w) (hmodule : "module".toList ≠ w)
    (himport : "import".toList ≠ w) (hpast : AtStart past) (hmore : ws ≠ [] ∨ tail.all isBlank) :
    Grammar.noiseStop c = opening past (textOf (⟨n, w :: ws⟩ :: ls) ++ tail) := by
  obtain ⟨⟨htidy, -⟩, hls⟩ := List.forall_mem_cons.mp hwithin
  obtain ⟨-, hws⟩ := List.forall_mem_cons.mp htidy.2
  rw [opening_cons htidy] at hc ⊢
  have hnoise : Grammar.skipNoise.runWith (Rule.run 0) c = _ := hit_skipNoise hc hw hmodule himport (gap_spaces n hpast)
    (gap_words ws (gap_newline _)).head?_not_isTokenChar (noColon_words hws (hmore.imp id (noColon_lines hls)))
  rw [Grammar.skipNoise_eq_hit] at hnoise
  simpa using hnoise

/-- The noise before a block that is all of a text is the blanks. -/
theorem noiseStop_block {n : Nat} {ls : List Line} {past tail : Text} {c : Cursor}
    (hc : c.skipWhile isBlank = opening past (textOf ls ++ tail)) (hblock : Block n ls) (hpast : AtStart past)
    (htail : tail.all isBlank) : Grammar.noiseStop c = opening past (textOf ls ++ tail) := by
  obtain ⟨hwithin, w, ws, ls', rfl, hw, hmodule, himport⟩ := hblock
  exact noiseStop_line hc hwithin hw hmodule himport hpast (Or.inr htail)

/-! ## Blocks as a text of their own -/

section Reading

variable {call : Rule → Cursor → Outcome Node} {α : Type} {n : Nat} {ls : List Line} {past tail : Text}

/-- The parser on a block and the blanks after it, as a text of its own. -/
theorem hit_indented {content : Parser α} {stop : Cursor} {v : α} (hblock : Block n ls) (htail : Closes n tail)
    (hpast : AtStart past) (hv : content.runWith call (.start (textOf ls ++ tail.takeWhile isBlank)) = .hit stop v) :
    (indented content).runWith call (opening past (textOf ls ++ tail)) =
      .hit (opening ((textOf ls).reverse ++ past) tail) v := by
  obtain ⟨hwithin, w, ws, ls', rfl, -⟩ := hblock
  obtain ⟨⟨htidy, -⟩, hls'⟩ := List.forall_mem_cons.mp hwithin
  have hopened : opening past (textOf (⟨n, w :: ws⟩ :: ls') ++ tail) =
      (Line.mk n (w :: ws)).opened past (textOf ls' ++ tail) := by
    rw [opening, textOf_cons, List.append_assoc, Line.skipWhile_text htidy.visible]
  have hstop := extentStop_level_opened htidy.visible (fun l hl => ⟨(hls' l hl).1.visible, (hls' l hl).2⟩) htail hpast
  have hslice (s : Text) : (Cursor.mk past (s ++ tail)).slice? (opening (s.reverse ++ past) tail) =
      some (s ++ tail.takeWhile isBlank) := by
    have h : (Cursor.mk past ((s ++ tail.takeWhile isBlank) ++ tail.dropWhile isBlank)).slice?
      ⟨(s ++ tail.takeWhile isBlank).reverse ++ past, tail.dropWhile isBlank⟩ = _ := slice?_append
    rw [List.append_assoc, List.takeWhile_append_dropWhile, List.reverse_append, List.append_assoc] at h
    exact h
  rw [hopened]
  simp only [runWith, hstop, Outcome.ofExcept, Line.toLineStart_opened hpast]
  have hcut := hslice (textOf (⟨n, w :: ws⟩ :: ls'))
  rw [opening] at hcut ⊢
  rw [← List.append_assoc, ← textOf_cons]
  simp only [hcut, Outcome.ofOption, hv, Outcome.bind]

/-- The place after a line is where the next line opens. -/
theorem skipWhile_newline (past t : Text) : (Cursor.mk past ('\n' :: t)).skipWhile isBlank = opening ('\n' :: past) t :=
  skipWhile_append_of_all past (s := ['\n']) (List.all_eq_true.mp rfl)

/-- A keyword that has its line for itself, and the block under it. -/
theorem hit_subBlock {word : String} {content : Parser α} {c stop : Cursor} {v : α}
    (hc : c.skipWhile isBlank = ⟨past, word.toList ++ '\n' :: (textOf ls ++ tail)⟩) (hword : Word word.toList)
    (hpast : Gap past) (hblock : Block n ls) (htail : Closes n tail)
    (hv : content.runWith call (.start (textOf ls ++ tail.takeWhile isBlank)) = .hit stop v) :
    (subBlock word content).runWith call c =
      .hit (opening ((textOf ls).reverse ++ '\n' :: (word.toList.reverse ++ past)) tail) v := by
  have hspace : spaceOptional.runWith call c = .hit ⟨past, word.toList ++ '\n' :: (textOf ls ++ tail)⟩ () := by
    rw [hit_spaceOptional, hc]
  have hkeyword : (keyword word).runWith call ⟨past, word.toList ++ '\n' :: (textOf ls ++ tail)⟩ = _ :=
    hit_keyword_append (matchesWord_self hword hpast (gap_newline _))
  have hbare : Test.bareLine.holds ⟨word.toList.reverse ++ past, '\n' :: (textOf ls ++ tail)⟩ := by
    simp [Test.holds, restOfLine, Text.firstLine, Text.trim, Text.trimEnd]
  have hline : line.runWith call ⟨word.toList.reverse ++ past, '\n' :: (textOf ls ++ tail)⟩ =
      .hit ⟨word.toList.reverse ++ past, '\n' :: (textOf ls ++ tail)⟩ () := by
    rw [hit_line, skipWhile_eq_self rfl]
  have hnext : spaceOptional.runWith call ⟨word.toList.reverse ++ past, '\n' :: (textOf ls ++ tail)⟩ =
      .hit (opening ('\n' :: (word.toList.reverse ++ past)) (textOf ls ++ tail)) () := by
    rw [hit_spaceOptional, skipWhile_newline]
  have hbody := hit_indented hblock htail (atStart_newline (word.toList.reverse ++ past)) hv
  refine hit_seq (hit_seq hspace hkeyword) ?_
  simp only [runWith, hbare, if_true]
  exact hit_seq (hit_seq hline hnext) hbody

/-! ## Parsers that read blocks -/

/-- The parser matches such a block from where it opens to where the next line does. -/
def Reads (call : Rule → Cursor → Outcome Node) (p : Parser Node) (n : Nat) (ls : List Line) (v : Node) : Prop :=
  ∀ past tail, AtStart past → Closes n tail → ∃ past', AtStart past' ∧
    p.runWith call (opening past (textOf ls ++ tail)) = .hit (opening past' tail) v

/-- Where a block opens more is left than where the next line does. -/
theorem Block.lt_opening (h : Block n ls) (past past' tail : Text) :
    (opening past' tail).rest.length < (opening past (textOf ls ++ tail)).rest.length := by
  obtain ⟨hwithin, w, ws, ls', rfl, -⟩ := h
  have htidy := (List.forall_mem_cons.mp hwithin).1.1
  have hle := length_rest_skipWhile_le (Cursor.mk past' tail) isBlank
  rw [opening_cons htidy]
  simp only [opening, List.length_append, List.length_cons] at hle ⊢
  omega

/-- Blocks one after the other, up to the end of the text, are read one after the other. -/
theorem repeatFrom_reads {p : Parser Node} {m : Nat} {f : α → List Line} {make : α → Node} (hmn : m < n)
    (hend : ∀ past, p.runWith call ⟨past, []⟩ = .miss) (htail : tail.all isBlank) {xs : List α}
    (hblock : ∀ x ∈ xs, Block m (f x)) (hreads : ∀ x ∈ xs, Reads call p n (f x) (make x)) (hpast : AtStart past) :
    ∃ past', repeatFrom (p.runWith call) (opening past (textOf (xs.flatMap f) ++ tail)) =
      .hit (opening past' tail) (xs.map make) := by
  induction xs generalizing past with
  | nil =>
    refine ⟨past, repeatFrom_of_miss ?_⟩
    rw [List.flatMap_nil, textOf_nil, List.nil_append, opening_of_all past htail]
    exact hend _
  | cons x xs ih =>
    obtain ⟨hx, hxs⟩ := List.forall_mem_cons.mp hblock
    obtain ⟨hreadx, hreadxs⟩ := List.forall_mem_cons.mp hreads
    have hcloses : Closes n (textOf (xs.flatMap f) ++ tail) := by
      cases xs with
      | nil => exact closes_of_all htail
      | cons y ys =>
        rw [List.flatMap_cons, textOf_append, List.append_assoc]
        exact (hxs y (by simp)).closes hmn _
    obtain ⟨past', hpast', hstep⟩ := hreadx past _ hpast hcloses
    obtain ⟨past'', hrest⟩ := ih hxs hreadxs hpast'
    rw [List.flatMap_cons, textOf_append, List.append_assoc]
    exact ⟨past'', by rw [repeatFrom_of_lt hstep (hx.lt_opening _ _ _), hrest]; rfl⟩

/-- Blocks that are all of a text are listed, if the parser begins with noise. -/
theorem hit_oneOrMore_reads {p : Parser Node} {m : Nat} {f : α → List Line} {make : α → Node} (hmn : m < n)
    (hnoise : ∀ c d, Grammar.noiseStop c = Grammar.noiseStop d → p.runWith call c = p.runWith call d)
    (hend : ∀ past, p.runWith call ⟨past, []⟩ = .miss) (htail : tail.all isBlank) {x : α} {xs : List α}
    (hblock : ∀ y ∈ x :: xs, Block m (f y)) (hreads : ∀ y ∈ x :: xs, Reads call p n (f y) (make y)) :
    ∃ stop, (oneOrMore p).runWith call (.start (textOf ((x :: xs).flatMap f) ++ tail)) =
      .hit stop (Node.listOf ((x :: xs).map make)) := by
  have hopens : (Cursor.start (textOf ((x :: xs).flatMap f) ++ tail)).skipWhile isBlank =
      opening [] (textOf ((x :: xs).flatMap f) ++ tail) := rfl
  have hstill : (opening [] (textOf ((x :: xs).flatMap f) ++ tail)).skipWhile isBlank =
      opening [] (textOf ((x :: xs).flatMap f) ++ tail) := skipWhile_skipWhile _ _
  have hall := block_flatMap hblock
  have hsame := hnoise _ _ ((noiseStop_block hopens hall atStart_nil htail).trans
    (noiseStop_block hstill hall atStart_nil htail).symm)
  obtain ⟨past', hmany⟩ := repeatFrom_reads hmn hend htail hblock hreads atStart_nil
  exact ⟨_, hit_oneOrMore (repeatFrom_congr hsame (length_rest_skipWhile_le _ _) hmany) (by simp)⟩

end Reading

end Canonical

end Offside
