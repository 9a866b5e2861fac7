import Offside.Proofs.Canonical.Program
import Offside.Proofs.Layout.Lines

/-!
# The layout of lines

Where a line opens in a text that is laid out as lines, and which of the following lines go with it: all that are at
least as far in, up to a line that is less far in or to the end of the text.
-/

namespace Offside

namespace Canonical

open Cursor

/-- Blanks that indent a line. -/
def spaces (n : Nat) : Text :=
  List.replicate n ' '

@[simp] theorem reverse_spaces (n : Nat) : (spaces n).reverse = spaces n := by
  simp [spaces]

theorem isBlank_of_mem_spaces {n : Nat} {ch : Char} (h : ch ∈ spaces n) : isBlank ch := by
  obtain ⟨-, rfl⟩ := List.mem_replicate.mp h
  decide

theorem all_isBlank_spaces (n : Nat) : (spaces n).all isBlank := by
  rw [List.all_eq_true]
  exact fun ch hch => isBlank_of_mem_spaces hch

/-- An indentation is passed up to what is visible. -/
theorem skipWhile_spaces (past : Text) (n : Nat) {rest : Text} (hrest : rest.head?.all (!isBlank ·)) :
    (Cursor.mk past (spaces n ++ rest)).skipWhile isBlank = ⟨spaces n ++ past, rest⟩ := by
  rw [skipWhile_append past (fun ch hch => isBlank_of_mem_spaces hch) hrest, reverse_spaces]

theorem newline_not_mem_spaces (n : Nat) : '\n' ∉ spaces n := by
  simp [spaces]

/-- What comes before, the nearest character first, ends in a newline or is nothing. -/
def AtStart (past : Text) : Prop :=
  past.head?.all (· == '\n')

theorem atStart_nil : AtStart [] := rfl

theorem atStart_newline (past : Text) : AtStart ('\n' :: past) := rfl

/-- At the start of a line nothing comes before on it. -/
theorem takeWhile_of_atStart {past : Text} (h : AtStart past) :
    past.takeWhile (· != '\n') = [] ∧ past.dropWhile (· != '\n') = past := by
  cases past with
  | nil => exact ⟨rfl, rfl⟩
  | cons ch past =>
    obtain rfl : ch = '\n' := by simpa [AtStart] using h
    exact ⟨rfl, rfl⟩

/-- What comes before the cursor on its line, past blanks from the line's start on. -/
theorem lead_spaces (n : Nat) {past : Text} (hpast : AtStart past) (rest : Text) :
    (Cursor.mk (spaces n ++ past) rest).lead = spaces n := by
  have hall := ne_newline_of_not_mem (newline_not_mem_spaces n)
  rw [lead, List.takeWhile_append_of_pos hall, (takeWhile_of_atStart hpast).1, List.append_nil]

theorem indentLevel_spaces (n : Nat) {past rest : Text} (hpast : AtStart past) (hrest : rest.head?.any (!isBlank ·)) :
    (Cursor.mk (spaces n ++ past) rest).indentLevel = .ok n := by
  rw [indentLevel_eq_ok_iff, lead_spaces n hpast]
  exact ⟨hrest, all_isBlank_spaces n, by simp [spaces]⟩

namespace Line

/-- The words of a line, with single blanks between them. -/
def content (l : Line) : Text :=
  [' '].intercalate l.words

/-- The line has something visible, at its front, and is one line. -/
def Visible (l : Line) : Prop :=
  l.content.head?.any (!isBlank ·) ∧ '\n' ∉ l.content

/-- The place where a line opens, given what comes before the line and after it. -/
def opened (l : Line) (past rest : Text) : Cursor :=
  ⟨spaces l.indent ++ past, l.content ++ '\n' :: rest⟩

variable {l : Line} {past rest : Text}

theorem text_eq (l : Line) : l.text = spaces l.indent ++ (l.content ++ ['\n']) := by
  simp [Line.text, spaces, content]

theorem reverse_text (l : Line) : l.text.reverse = '\n' :: (l.content.reverse ++ spaces l.indent) := by
  simp [text_eq]

/-- Past a line a line starts. -/
theorem atStart_text (l : Line) (past : Text) : AtStart (l.text.reverse ++ past) := by
  rw [reverse_text]
  exact atStart_newline _

/-- Past the indentation the line opens. -/
theorem skipWhile_text (h : l.Visible) : (Cursor.mk past (l.text ++ rest)).skipWhile isBlank = l.opened past rest := by
  have hvisible : (l.content ++ '\n' :: rest).head?.all (!isBlank ·) := by
    have hfirst := h.1
    cases hc : l.content <;> simp_all
  rw [text_eq, opened, ← skipWhile_spaces past l.indent hvisible]
  simp

/-- Where a line opens its indentation is known. -/
theorem indentLevel_opened (h : l.Visible) (hpast : AtStart past) : (l.opened past rest).indentLevel = .ok l.indent := by
  refine indentLevel_spaces l.indent hpast ?_
  have hfirst := h.1
  cases hc : l.content <;> simp_all

theorem toLineStart_opened (hpast : AtStart past) : (l.opened past rest).toLineStart = ⟨past, l.text ++ rest⟩ := by
  have hall := ne_newline_of_not_mem (newline_not_mem_spaces l.indent)
  rw [toLineStart, opened, lead_spaces _ hpast, text_eq, reverse_spaces]
  simp [List.dropWhile_append_of_pos hall, (takeWhile_of_atStart hpast).2]

end Line

/-- The next line, from anywhere on a line. -/
theorem nextLine_eq {past s rest : Text} (hs : '\n' ∉ s) :
    (Cursor.mk past (s ++ '\n' :: rest)).nextLine = (Cursor.mk ('\n' :: s.reverse ++ past) rest).skipWhile isBlank := by
  rw [nextLine, skipWhile_append past (ne_newline_of_not_mem hs) rfl]
  exact skipWhile_append_of_all _ (s := ['\n']) (List.all_eq_true.mp rfl)

theorem Line.nextLine_opened {l : Line} {past rest : Text} (h : l.Visible) :
    (l.opened past rest).nextLine = (Cursor.mk (l.text.reverse ++ past) rest).skipWhile isBlank := by
  rw [opened, nextLine_eq h.2, reverse_text]
  simp

/-! ## Blocks -/

@[simp] theorem textOf_nil : textOf [] = [] := rfl

@[simp] theorem textOf_cons (l : Line) (ls : List Line) : textOf (l :: ls) = l.text ++ textOf ls := rfl

@[simp] theorem textOf_append (ls ls' : List Line) : textOf (ls ++ ls') = textOf ls ++ textOf ls' :=
  List.flatMap_append

/-- What follows is no line that is as far in: nothing visible, or a line less far in. -/
def Closes (n : Nat) (tail : Text) : Prop :=
  tail.all isBlank ∨ ∃ m v, tail = spaces m ++ v ∧ m < n ∧ v.head?.any (!isBlank ·)

/-- Blanks close every line. -/
theorem closes_of_all {n : Nat} {tail : Text} (h : tail.all isBlank) : Closes n tail :=
  Or.inl h

theorem Closes.of_le {m n : Nat} {tail : Text} (h : Closes m tail) (hle : m ≤ n) : Closes n tail := by
  rcases h with hblank | ⟨k, v, htail, hk, hv⟩
  · exact Or.inl hblank
  · exact Or.inr ⟨k, v, htail, Nat.lt_of_lt_of_le hk hle, hv⟩

/-- Lines that pass a test are skipped up to what closes them. -/
theorem skipLines_textOf (keep : Nat → Bool) {n : Nat} {ls : List Line} {past tail : Text}
    (hls : ∀ l ∈ ls, l.Visible ∧ keep l.indent) (hkeep : ∀ m, m < n → keep m = false) (htail : Closes n tail)
    (hpast : AtStart past) :
    ((Cursor.mk past (textOf ls ++ tail)).skipWhile isBlank).skipLines keep =
      .ok ((Cursor.mk ((textOf ls).reverse ++ past) tail).skipWhile isBlank) := by
  induction ls generalizing past with
  | nil =>
    rw [textOf_nil, List.nil_append]
    rcases htail with hblank | ⟨m, v, rfl, hm, hv⟩
    · have hdone : ((Cursor.mk past tail).skipWhile isBlank).isDone := by
        simpa [isDone, skipWhile, List.dropWhile_eq_nil_iff] using hblank
      rw [skipLines, if_pos hdone]
      rfl
    · have hv' : v.head?.all (!isBlank ·) := by cases v <;> simp_all
      rw [List.reverse_nil, List.nil_append, skipWhile_spaces past m hv']
      exact skipLines_of_not_keep (indentLevel_spaces m hpast hv) (hkeep m hm)
  | cons l ls ih =>
    obtain ⟨⟨hl, hk⟩, hls'⟩ := List.forall_mem_cons.mp hls
    rw [textOf_cons, List.append_assoc, Line.skipWhile_text hl,
      skipLines_of_keep (Line.indentLevel_opened hl hpast) hk, Line.nextLine_opened hl,
      ih hls' (Line.atStart_text l past)]
    simp

/-- The lines at the level of the one that opens reach up to what closes it. -/
theorem extentStop_level_opened {l : Line} {ls : List Line} {past tail : Text} (hl : l.Visible)
    (hls : ∀ l' ∈ ls, l'.Visible ∧ l.indent ≤ l'.indent) (htail : Closes l.indent tail) (hpast : AtStart past) :
    (l.opened past (textOf ls ++ tail)).extentStop .level =
      .ok ((Cursor.mk ((textOf (l :: ls)).reverse ++ past) tail).skipWhile isBlank) := by
  have hdone : ¬(l.opened past (textOf ls ++ tail)).isDone := by simp [isDone, Line.opened]
  have hskip := skipLines_textOf (fun line => l.indent ≤ line) (fun l' hl' => ⟨(hls l' hl').1, by
    simpa using (hls l' hl').2⟩) (fun m hm => by simpa using hm) htail (Line.atStart_text l past)
  simp only [extentStop, skipBlock, Line.indentLevel_opened hl hpast, Except.bind]
  rw [if_neg hdone, Line.nextLine_opened hl, hskip]
  simp

end Canonical

end Offside
