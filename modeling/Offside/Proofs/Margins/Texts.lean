import Mathlib.Data.List.Chain
import Offside.Proofs.Layout.Lines
import Offside.Proofs.LineEndings.Nodes

/-!
# Texts with a margin

An inset is a text in which some characters are marked as inserted, so it holds two texts at once: the plain one, without
what was inserted, and the full one. In what follows spaces are inserted at the front of lines. What is asked about a place
before which nothing was inserted on its line, or all of it, has the same answer in both texts.
-/

namespace Offside

/-! ## Blanks that do not matter -/

namespace Text

/-- The text without its blanks. -/
def squeezed (t : Text) : Text :=
  t.filter (!isBlank ·)

/-- A line with spaces in front of it, if there is something visible on it. -/
def shiftedLine (k : Nat) (line : Text) : Text :=
  if line.all isBlank then line else List.replicate k ' ' ++ line

/-- The text with spaces in front of every line that has something visible on it. -/
def shifted (k : Nat) (t : Text) : Text :=
  ['\n'].intercalate (t.lines.map (shiftedLine k))

/-- There is something in the text, and all of it is visible. -/
def Visible (t : Text) : Prop :=
  t ≠ [] ∧ ∀ ch ∈ t, isBlank ch = false

-- Going through the characters of the text, not through all that there are.
instance (t : Text) : Decidable t.Visible :=
  @instDecidableAnd _ _ inferInstance (List.decidableBAll (isBlank · = false) t)

@[simp] theorem squeezed_append (s t : Text) : squeezed (s ++ t) = squeezed s ++ squeezed t :=
  List.filter_append s t

theorem squeezed_eq_nil {t : Text} (h : t.all isBlank) : squeezed t = [] := by
  rw [squeezed, List.filter_eq_nil_iff]
  intro ch hch
  simpa using List.all_eq_true.mp h ch hch

theorem squeezed_trimEnd (t : Text) : squeezed t.trimEnd = squeezed t := by
  obtain ⟨blanks, heq, hblanks⟩ := exists_eq_trimEnd_append t
  conv_rhs => rw [heq, squeezed_append, squeezed_eq_nil hblanks, List.append_nil]

theorem squeezed_trim (t : Text) : squeezed t.trim = squeezed t := by
  have hblanks : (t.takeWhile isBlank).all isBlank := by simp
  rw [trim, squeezed_trimEnd]
  conv_rhs => rw [← List.takeWhile_append_dropWhile (p := isBlank) (l := t), squeezed_append, squeezed_eq_nil hblanks]
  rfl

/-- Where there is no blank, there is nothing to trim. -/
theorem trim_of_visible {t : Text} (h : ∀ ch ∈ t, isBlank ch = false) : t.trim = t := by
  have hdrop {s : Text} (hs : ∀ ch ∈ s, isBlank ch = false) : s.dropWhile isBlank = s := by
    cases s with
    | nil => rfl
    | cons ch s => simp [hs ch List.mem_cons_self]
  rw [trim, hdrop h, trimEnd, hdrop (by simpa using h), List.reverse_reverse]

theorem isBlank_of_mem_squeezed {t : Text} {ch : Char} (h : ch ∈ squeezed t) : isBlank ch = false := by
  simpa using (List.mem_filter.mp h).2

theorem squeezed_lines (t : Text) : (t.lines.map squeezed).flatten = squeezed t := by
  induction t with
  | nil => rfl
  | cons ch t ih =>
    obtain ⟨line, more, hlines⟩ := List.exists_cons_of_ne_nil (lines_ne_nil t)
    rw [lines]
    split
    · next hch =>
      obtain rfl : ch = '\n' := by simpa using hch
      exact ih
    · have hsplit (s : Text) : squeezed (ch :: s) = squeezed [ch] ++ squeezed s := squeezed_append [ch] s
      rw [hlines, List.map_cons, List.flatten_cons] at ih
      rw [hlines, List.map_cons, List.flatten_cons, hsplit, List.append_assoc, ih, ← hsplit]

theorem squeezed_intercalate (ts : List Text) : squeezed (['\n'].intercalate ts) = (ts.map squeezed).flatten := by
  induction ts with
  | nil => rfl
  | cons t ts ih =>
    cases ts with
    | nil => simp
    | cons u ts =>
      have hnewline : squeezed ['\n'] = [] := by decide
      rw [List.intercalate_cons_cons, squeezed_append, squeezed_append, ih, hnewline, List.append_nil]
      rfl

theorem squeezed_normalizeBlock (t : Text) : squeezed (normalizeBlock t) = squeezed t := by
  have hkept (ts : List Text) : ((ts.filter (!·.isEmpty)).map squeezed).flatten = (ts.map squeezed).flatten := by
    induction ts with
    | nil => rfl
    | cons t ts ih =>
      cases t with
      | nil => exact ih
      | cons ch t => simpa using ih
  have htrim : squeezed ∘ trim = squeezed := funext squeezed_trim
  rw [normalizeBlock, squeezed_intercalate, hkept, List.map_map, htrim, squeezed_lines]

theorem lines_of_not_mem {t : Text} (h : '\n' ∉ t) : t.lines = [t] := by
  induction t with
  | nil => rfl
  | cons ch t ih =>
    rw [List.mem_cons, not_or] at h
    rw [lines, ih h.2, if_neg (by simpa using Ne.symm h.1)]

theorem newline_not_mem_of_mem_lines {t line : Text} (h : line ∈ t.lines) : '\n' ∉ line := by
  induction t generalizing line with
  | nil =>
    obtain rfl : line = [] := by simpa [lines] using h
    exact List.not_mem_nil
  | cons ch t ih =>
    obtain ⟨first, more, hlines⟩ := List.exists_cons_of_ne_nil (lines_ne_nil t)
    rw [hlines] at ih
    rw [lines, hlines] at h
    split at h
    · rcases List.mem_cons.mp h with rfl | hmem
      · exact List.not_mem_nil
      · exact ih hmem
    · next hch =>
      rcases List.mem_cons.mp h with rfl | hmem
      · have hfirst := ih List.mem_cons_self
        rw [List.mem_cons, not_or]
        exact ⟨fun heq => hch (by simp [← heq]), hfirst⟩
      · exact ih (List.mem_cons_of_mem first hmem)

/-- The lines of a text, put together again. -/
theorem intercalate_lines (t : Text) : ['\n'].intercalate t.lines = t := by
  induction t with
  | nil => rfl
  | cons ch t ih =>
    obtain ⟨line, more, hlines⟩ := List.exists_cons_of_ne_nil (lines_ne_nil t)
    rw [hlines] at ih
    rw [lines, hlines]
    split
    · next hch =>
      obtain rfl : ch = '\n' := by simpa using hch
      rw [List.intercalate_cons_cons, ih]
      rfl
    · cases more with
      | nil => simpa using ih
      | cons next more =>
        rw [List.intercalate_cons_cons] at ih ⊢
        rw [← ih]
        rfl

end Text

/-- In a text without blanks a form finds nothing to trim. -/
theorem suitsForms_squeezed : SuitsForms Text.squeezed where
  trim t := by rw [Text.squeezed_trim, Text.trim_of_visible fun _ => Text.isBlank_of_mem_squeezed]
  normalizeBlock t := by
    have hvisible : ∀ ch ∈ t.squeezed, isBlank ch = false := fun _ => Text.isBlank_of_mem_squeezed
    have hline : '\n' ∉ t.squeezed := fun hmem => absurd (hvisible _ hmem) (by decide)
    rw [Text.squeezed_normalizeBlock, normalizeBlock, Text.lines_of_not_mem hline, List.map_singleton,
      Text.trim_of_visible hvisible]
    cases t.squeezed <;> simp

/-! ## Insets -/

/-- A text in which some characters are marked as inserted. -/
abbrev Inset := List (Char × Bool)

namespace Inset

/-- The text without what was inserted. -/
def plain (m : Inset) : Text :=
  (m.filter (!·.2)).map Prod.fst

/-- The text with what was inserted. -/
def full (m : Inset) : Text :=
  m.map Prod.fst

@[simp] theorem plain_nil : plain [] = [] := rfl

@[simp] theorem full_nil : full [] = [] := rfl

@[simp] theorem plain_cons_true (ch : Char) (m : Inset) : plain ((ch, true) :: m) = plain m := rfl

@[simp] theorem plain_cons_false (ch : Char) (m : Inset) : plain ((ch, false) :: m) = ch :: plain m := rfl

@[simp] theorem full_cons (x : Char × Bool) (m : Inset) : full (x :: m) = x.1 :: full m := rfl

@[simp] theorem plain_append (m n : Inset) : plain (m ++ n) = plain m ++ plain n := by
  simp [plain]

@[simp] theorem full_append (m n : Inset) : full (m ++ n) = full m ++ full n := by
  simp [full]

@[simp] theorem plain_reverse (m : Inset) : plain m.reverse = (plain m).reverse := by
  simp [plain, List.filter_reverse]

@[simp] theorem full_reverse (m : Inset) : full m.reverse = (full m).reverse := by
  simp [full]

@[simp] theorem full_take (m : Inset) (n : Nat) : full (m.take n) = (full m).take n :=
  List.map_take

@[simp] theorem full_drop (m : Inset) (n : Nat) : full (m.drop n) = (full m).drop n :=
  List.map_drop

@[simp] theorem length_full (m : Inset) : (full m).length = m.length :=
  List.length_map _

/-- The full text is longer by what was inserted. -/
theorem length_full_eq (m : Inset) : (full m).length = (plain m).length + m.countP Prod.snd := by
  induction m with
  | nil => rfl
  | cons x m ih =>
    obtain ⟨ch, _ | _⟩ := x
    · simp only [full_cons, plain_cons_false, List.length_cons, ih, List.countP_cons]
      simp only [Bool.false_eq_true, if_false]
      omega
    · simp only [full_cons, plain_cons_true, List.length_cons, ih, List.countP_cons, if_true]
      omega

/-- What is inserted are spaces. -/
def Spaced (m : Inset) : Prop :=
  ∀ x ∈ m, x.2 = true → x.1 = ' '

/-- Spaces are inserted, at the front of lines. -/
structure Fronted (m : Inset) : Prop where
  /-- What is inserted are spaces. -/
  spaced : m.Spaced
  /-- Right before it there is a newline, or another inserted space, or nothing. -/
  front : m.IsChain fun x y => y.2 = true → x.2 = true ∨ x.1 = '\n'

/-- What comes next, if anything, was not inserted. -/
def Genuine (m : Inset) : Prop :=
  m.head?.all (!·.2) = true

theorem Spaced.tail {x : Char × Bool} {m : Inset} (h : Spaced (x :: m)) : m.Spaced := fun y hy =>
  h y (List.mem_cons_of_mem x hy)

theorem Fronted.of_part {m n : Inset} (h : m.Fronted) (hn : n <:+: m) : n.Fronted where
  spaced x hx := h.spaced x (hn.subset hx)
  front := h.front.infix hn

theorem Fronted.tail {x : Char × Bool} {m : Inset} (h : Fronted (x :: m)) : m.Fronted :=
  h.of_part (List.suffix_cons x m).isInfix

theorem Fronted.drop {m : Inset} (h : m.Fronted) (n : Nat) : Fronted (m.drop n) :=
  h.of_part (List.drop_suffix n m).isInfix

theorem genuine_nil : Genuine [] := rfl

theorem genuine_cons_iff {x : Char × Bool} {m : Inset} : Genuine (x :: m) ↔ x.2 = false := by
  simp [Genuine]

/-- Something other than a space was not inserted. -/
theorem Fronted.genuine {m : Inset} (h : m.Fronted) (hnext : (full m).head? ≠ some ' ') : m.Genuine := by
  cases m with
  | nil => rfl
  | cons x m =>
    rw [genuine_cons_iff, Bool.eq_false_iff]
    intro hx
    exact hnext (by simp [h.spaced x List.mem_cons_self hx])

/-- After something that was not inserted, nothing is inserted on the line. -/
theorem Genuine.tail {x : Char × Bool} {m : Inset} (hx : Genuine (x :: m)) (h : Fronted (x :: m)) (hne : x.1 ≠ '\n') :
    m.Genuine := by
  cases m with
  | nil => rfl
  | cons y m =>
    rw [genuine_cons_iff] at hx ⊢
    rw [Bool.eq_false_iff]
    intro hy
    rcases (List.isChain_cons_cons.mp h.front).1 hy with hx' | hnewline
    · rw [hx] at hx'
      cases hx'
    · exact hne hnewline

/-- Both texts begin with what was not inserted. -/
theorem Genuine.head? {m : Inset} (h : m.Genuine) : (plain m).head? = (full m).head? := by
  cases m with
  | nil => rfl
  | cons x m =>
    obtain ⟨ch, _ | _⟩ := x
    · rfl
    · cases h

/-! ## Runs of characters -/

theorem takeWhile_full (test : Char → Bool) (m : Inset) :
    (full m).takeWhile test = full (m.takeWhile (test ·.1)) ∧ (full m).dropWhile test = full (m.dropWhile (test ·.1)) :=
  ⟨List.takeWhile_map .., List.dropWhile_map ..⟩

/-- Inserted spaces that satisfy a test belong to a run of characters that do. -/
theorem Spaced.takeWhile_plain {m : Inset} (h : m.Spaced) {test : Char → Bool} (htest : test ' ') :
    (plain m).takeWhile test = plain (m.takeWhile (test ·.1)) ∧
      (plain m).dropWhile test = plain (m.dropWhile (test ·.1)) := by
  induction m with
  | nil => exact ⟨rfl, rfl⟩
  | cons x m ih =>
    have hmore := ih h.tail
    obtain ⟨ch, _ | _⟩ := x
    · by_cases hch : test ch
      · simpa [hch] using hmore
      · simp [hch]
    · obtain rfl : ch = ' ' := h _ List.mem_cons_self rfl
      simpa [htest] using hmore

/-- On the line that is left there is nothing inserted, and nothing is right after a part of it. -/
theorem Genuine.take {m : Inset} (hm : m.Genuine) (h : m.Fronted) {n : Nat} (hline : '\n' ∉ (full m).take n) :
    plain (m.take n) = (full m).take n ∧ Genuine (m.drop n) := by
  induction n generalizing m with
  | zero => exact ⟨by simp, by simpa using hm⟩
  | succ n ih =>
    cases m with
    | nil => exact ⟨by simp, by simp [genuine_nil]⟩
    | cons x m =>
      rw [full_cons, List.take_succ_cons, List.mem_cons, not_or] at hline
      obtain ⟨htake, hdrop⟩ := ih (hm.tail h (Ne.symm hline.1)) h.tail hline.2
      obtain ⟨ch, mark⟩ := x
      obtain rfl : mark = false := genuine_cons_iff.mp hm
      exact ⟨by simp [htake], hdrop⟩

/-- A run of characters that satisfy a test is the same in both texts if it ends with the line. -/
theorem Genuine.takeWhile {m : Inset} (hm : m.Genuine) (h : m.Fronted) {test : Char → Bool} (htest : test '\n' = false) :
    (plain m).takeWhile test = (full m).takeWhile test := by
  induction m with
  | nil => rfl
  | cons x m ih =>
    obtain ⟨ch, mark⟩ := x
    obtain rfl : mark = false := genuine_cons_iff.mp hm
    by_cases hch : test ch
    · have hne : ch ≠ '\n' := by
        rintro rfl
        rw [htest] at hch
        cases hch
      simp [hch, ih (hm.tail h hne) h.tail]
    · simp [hch]

theorem Spaced.all_plain {m : Inset} (h : m.Spaced) {test : Char → Bool} (htest : test ' ') :
    (plain m).all test = (full m).all test := by
  induction m with
  | nil => rfl
  | cons x m ih =>
    obtain ⟨ch, _ | _⟩ := x
    · simp [ih h.tail]
    · obtain rfl : ch = ' ' := h _ List.mem_cons_self rfl
      simp [ih h.tail, htest]

theorem Spaced.mem_plain_iff {m : Inset} (h : m.Spaced) {ch : Char} (hne : ch ≠ ' ') : ch ∈ plain m ↔ ch ∈ full m := by
  induction m with
  | nil => rfl
  | cons x m ih =>
    obtain ⟨first, _ | _⟩ := x
    · simp [ih h.tail]
    · obtain rfl : first = ' ' := h _ List.mem_cons_self rfl
      simp [ih h.tail, hne]

/-! ## Literals -/

theorem Genuine.isPrefixOf {m : Inset} (hm : m.Genuine) (h : m.Fronted) {literal : Text} (hliteral : '\n' ∉ literal) :
    literal.isPrefixOf (plain m) = literal.isPrefixOf (full m) := by
  induction literal generalizing m with
  | nil => simp
  | cons ch literal ih =>
    cases m with
    | nil => rfl
    | cons x m =>
      rw [List.mem_cons, not_or] at hliteral
      obtain ⟨first, mark⟩ := x
      obtain rfl : mark = false := genuine_cons_iff.mp hm
      rw [plain_cons_false, full_cons, List.isPrefixOf, List.isPrefixOf]
      cases hfirst : ch == first with
      | false => rfl
      | true =>
        obtain rfl : ch = first := by simpa using hfirst
        rw [ih (hm.tail h (Ne.symm hliteral.1)) h.tail hliteral.2]

end Inset

namespace Text.Visible

variable {literal : Text} (h : literal.Visible)

include h

theorem newline_not_mem : '\n' ∉ literal := fun hmem =>
  absurd (h.2 _ hmem) (by decide)

/-- What begins with a space does not begin with something visible. -/
theorem isPrefixOf_space (t : Text) : literal.isPrefixOf (' ' :: t) = false := by
  cases literal with
  | nil => exact absurd rfl h.1
  | cons ch literal =>
    have hne : ch ≠ ' ' := by
      rintro rfl
      exact absurd (h.2 _ List.mem_cons_self) (by decide)
    simp [List.isPrefixOf, hne]

theorem head?_ne_of_prefix {t : Text} (ht : literal <+: t) : t.head? ≠ some ' ' := by
  cases t with
  | nil => simp
  | cons first t =>
    rw [List.head?_cons, ne_eq, Option.some.injEq]
    rintro rfl
    have hmiss := h.isPrefixOf_space t
    rw [List.isPrefixOf_iff_prefix.mpr ht] at hmiss
    cases hmiss

end Text.Visible

namespace Inset

/-- Something visible is found after as many characters, inserted ones apart. -/
theorem Fronted.indexOf?_plain {m : Inset} (h : m.Fronted) {literal : Text} (hliteral : literal.Visible) :
    (plain m).indexOf? literal = ((full m).indexOf? literal).map fun n => (plain (m.take n)).length := by
  induction m with
  | nil =>
    have hne : literal.isEmpty = false := by simpa using hliteral.1
    simp [Text.indexOf?, hne]
  | cons x m ih =>
    have hmore := ih h.tail
    obtain ⟨ch, _ | _⟩ := x
    · have hgenuine : Genuine ((ch, false) :: m) := rfl
      have hnext := hgenuine.isPrefixOf h hliteral.newline_not_mem
      rw [plain_cons_false, full_cons] at hnext ⊢
      rw [Text.indexOf?, hnext, hmore, Text.indexOf?]
      split
      · rfl
      · simp [Function.comp_def]
    · obtain rfl : ch = ' ' := h.spaced _ List.mem_cons_self rfl
      rw [plain_cons_true, full_cons, hmore, Text.indexOf?.eq_2 literal ' ', hliteral.isPrefixOf_space]
      simp [Function.comp_def]

/-- Where it is found, nothing was inserted. -/
theorem Fronted.genuine_of_indexOf? {m : Inset} (h : m.Fronted) {literal : Text} (hliteral : literal.Visible) {n : Nat}
    (hn : (full m).indexOf? literal = some n) : Genuine (m.drop n) := by
  have hfound := (Text.indexOf?_eq_some hn).2
  rw [← full_drop] at hfound
  exact (h.drop n).genuine (hliteral.head?_ne_of_prefix hfound)

end Inset

end Offside
