import Mathlib.Data.List.Forall2
import Offside.Proofs.Layout.Lines

/-!
# The layout at places in step

Two scans of the indentation run in step when the places that they are at correspond to each other. `KeepsLines` lists what
a scan from line to line looks at, `KeepsLayout` what the layout does; from it `KeepsLayout.extentStop` derives that
corresponding places have corresponding extents, and faults of one kind.
-/

namespace Offside

/-! ## Results in step -/

namespace Fault

/-- What a fault is about, without the place and the text that it shows. -/
inductive Kind where
  /-- The indentation was asked for where there is none. -/
  | probedBlank
  /-- The indentation was asked for in the middle of a line. -/
  | probedMidLine
  /-- Something is missing. -/
  | expected
  /-- The captures have the wrong shape. -/
  | shape
  /-- The end of the text was not reached. -/
  | incomplete
deriving DecidableEq

/-- The kind of a fault. -/
def kind : Fault → Kind
  | .probedBlank _ => .probedBlank
  | .probedMidLine _ _ => .probedMidLine
  | .expected _ _ _ => .expected
  | .shape _ _ => .shape
  | .incomplete _ _ _ => .incomplete

end Fault

/-- Two checks in step: they give values that are related, or faults of one kind. -/
inductive ChecksInStep {α β : Type} (value : α → β → Prop) : Except Fault α → Except Fault β → Prop where
  | ok {a : α} {b : β} (related : value a b) : ChecksInStep value (.ok a) (.ok b)
  | error {f g : Fault} (kind : f.kind = g.kind) : ChecksInStep value (.error f) (.error g)

namespace ChecksInStep

variable {α β γ δ : Type} {value : α → β → Prop} {value' : γ → δ → Prop} {e : Except Fault α} {e' : Except Fault β}

theorem bind {next : α → Except Fault γ} {next' : β → Except Fault δ} (h : ChecksInStep value e e')
    (hnext : ∀ a b, value a b → ChecksInStep value' (next a) (next' b)) :
    ChecksInStep value' (e.bind next) (e'.bind next') := by
  cases h with
  | ok related => exact hnext _ _ related
  | error kind => exact .error kind

theorem imp {made : α → β → Prop} (h : ChecksInStep value e e') (hvalue : ∀ a b, value a b → made a b) :
    ChecksInStep made e e' := by
  cases h with
  | ok related => exact .ok (hvalue _ _ related)
  | error kind => exact .error kind

theorem map {f : α → γ} {g : β → δ} (h : ChecksInStep value e e') (hvalue : ∀ a b, value a b → value' (f a) (g b)) :
    ChecksInStep value' (e.map f) (e'.map g) := by
  cases h with
  | ok related => exact .ok (hvalue _ _ related)
  | error kind => exact .error kind

/-- Checks along two lists are in step if they are for the members in turn. -/
theorem mapM {check : α → Except Fault γ} {check' : β → Except Fault δ} {as : List α} {bs : List β}
    (h : List.Forall₂ value as bs) (hcheck : ∀ a b, value a b → ChecksInStep value' (check a) (check' b)) :
    ChecksInStep (List.Forall₂ value') (as.mapM check) (bs.mapM check') := by
  induction h with
  | nil => exact .ok .nil
  | cons hab _ ih =>
    rw [List.mapM_cons, List.mapM_cons]
    refine (hcheck _ _ hab).bind fun made made' hmade => ih.bind fun more more' hmore => ?_
    exact .ok (.cons hmade hmore)

end ChecksInStep

/-! ## Extents in step -/

namespace Cursor

variable {c d : Cursor}

theorem skipLines_of_isDone {keep : Nat → Bool} (hdone : c.isDone) : c.skipLines keep = .ok c := by
  rw [skipLines, if_pos hdone]

/-- The scan faults at a line whose indentation cannot be told. -/
theorem skipLines_of_error {keep : Nat → Bool} {fault : Fault} (hdone : ¬c.isDone) (hl : c.indentLevel = .error fault) :
    c.skipLines keep = .error fault := by
  rw [skipLines, if_neg hdone]
  split
  · next fault' hfault =>
    obtain rfl : fault = fault' := by simpa [hl] using hfault
    rfl
  · next level hok => simp [hl] at hok

/-- Scans run in step whose tests agree on the indentation of each line, if the first of them does not reach the end; if it
does, the second has to pass what the first passes. -/
theorem skipLines_inStep {place : Cursor → Cursor → Prop} {level : Nat → Nat → Prop} {keep keep' : Nat → Bool}
    (hdone : ∀ {c c' : Cursor}, place c c' → c.isDone = c'.isDone)
    (hlevel : ∀ {c c' : Cursor}, place c c' → ChecksInStep level c.indentLevel c'.indentLevel)
    (hnext : ∀ {c c' : Cursor}, place c c' → place c.nextLine c'.nextLine)
    (hkeep : ∀ l l', level l l' → keep l → keep' l') {c c' : Cursor}
    (hstop : (∀ stop, c.skipLines keep = .ok stop → stop.isDone) ∨ ∀ l l', level l l' → keep' l' → keep l)
    (hc : place c c') : ChecksInStep place (c.skipLines keep) (c'.skipLines keep') := by
  have hdone' := hdone hc
  have hlevels := hlevel hc
  fun_induction Cursor.skipLines keep c generalizing c' with
  | case1 c hend =>
    rw [skipLines_of_isDone (hdone' ▸ hend)]
    exact .ok hc
  | case2 c hend fault hl =>
    rw [hl] at hlevels
    generalize hl' : c'.indentLevel = e' at hlevels
    cases hlevels with
    | error kind =>
      rw [skipLines_of_error (hdone' ▸ hend) hl']
      exact .error kind
  | case3 c hend l hl hk ih =>
    rw [hl] at hlevels
    generalize hl' : c'.indentLevel = e' at hlevels
    cases hlevels with
    | ok related =>
      rw [skipLines_of_keep hl' (hkeep _ _ related hk)]
      exact ih hstop (hnext hc) (hdone (hnext hc)) (hlevel (hnext hc))
  | case4 c hend l hl hk =>
    rw [hl] at hlevels
    generalize hl' : c'.indentLevel = e' at hlevels
    cases hlevels with
    | ok related =>
      have hback := hstop.resolve_left fun h => hend (h c rfl)
      rw [skipLines_of_not_keep hl' (Bool.eq_false_iff.mpr fun hk' => hk (hback _ _ related hk'))]
      exact .ok hc

end Cursor

/-- Places that correspond to each other look the same to a scan from line to line. -/
structure KeepsLines (place : Cursor → Cursor → Prop) : Prop where
  /-- Both are at the end of their texts, or neither is. -/
  isDone : ∀ {c c' : Cursor}, place c c' → c.isDone = c'.isDone
  /-- The indentation is the same. -/
  indentLevel : ∀ {c c' : Cursor}, place c c' → ChecksInStep (· = ·) c.indentLevel c'.indentLevel
  /-- The next lines open at corresponding places. -/
  nextLine : ∀ {c c' : Cursor}, place c c' → place c.nextLine c'.nextLine

namespace KeepsLines

open Cursor

variable {place : Cursor → Cursor → Prop} (hlines : KeepsLines place) {c c' : Cursor}

include hlines

/-- Scans of lines with one test run in step: each line has the same indentation. -/
theorem skipLines (keep : Nat → Bool) (hc : place c c') :
    ChecksInStep place (c.skipLines keep) (c'.skipLines keep) :=
  skipLines_inStep hlines.isDone hlines.indentLevel hlines.nextLine (fun _ _ h hk => h ▸ hk)
    (Or.inr fun _ _ h hk => h ▸ hk) hc

theorem skipBlock (keep : Nat → Nat → Bool) (hc : place c c') :
    ChecksInStep place (c.skipBlock keep) (c'.skipBlock keep) := by
  have hdone := hlines.isDone hc
  unfold Cursor.skipBlock
  rw [← hdone]
  split
  · exact .ok hc
  · refine (hlines.indentLevel hc).bind fun level level' hlevel => ?_
    subst hlevel
    exact hlines.skipLines (keep level) (hlines.nextLine hc)

end KeepsLines

/-- Places that correspond to each other look the same to the layout. -/
structure KeepsLayout (place : Cursor → Cursor → Prop) : Prop where
  /-- Both are at the end of their texts, or neither is. -/
  isDone : ∀ {c c' : Cursor}, place c c' → c.isDone = c'.isDone
  /-- The indentation is the same. -/
  indentLevel : ∀ {c c' : Cursor}, place c c' → ChecksInStep (· = ·) c.indentLevel c'.indentLevel
  /-- The lines start at corresponding places. -/
  toLineStart : ∀ {c c' : Cursor}, place c c' → place c.toLineStart c'.toLineStart
  /-- What is left of the lines is blank in both, or in neither. -/
  blankLine : ∀ {c c' : Cursor}, place c c' → c.restOfLine.all isBlank = c'.restOfLine.all isBlank
  /-- The lines end at corresponding places. -/
  skipLine : ∀ {c c' : Cursor}, place c c' → place (c.skipWhile (· != '\n')) (c'.skipWhile (· != '\n'))
  /-- The blanks end at corresponding places. -/
  skipBlanks : ∀ {c c' : Cursor}, place c c' → place (c.skipWhile isBlank) (c'.skipWhile isBlank)

namespace KeepsLayout

open Cursor

variable {place : Cursor → Cursor → Prop} (hlayout : KeepsLayout place) {c c' : Cursor}

include hlayout

theorem keepsLines : KeepsLines place where
  isDone := hlayout.isDone
  indentLevel := hlayout.indentLevel
  nextLine hc := hlayout.skipBlanks (hlayout.skipLine hc)

/-- Extents that begin at corresponding places stop at corresponding places. -/
theorem extentStop (e : Extent) (hc : place c c') : ChecksInStep place (c.extentStop e) (c'.extentStop e) := by
  cases e with
  | block => exact hlayout.keepsLines.skipBlock _ hc
  | level => exact hlayout.keepsLines.skipBlock _ hc
  | restOfBlock =>
    have hstart := hlayout.toLineStart hc
    have hblank := hlayout.blankLine hstart
    simp only [Cursor.extentStop]
    rw [← hblank]
    split
    · exact .ok (hlayout.skipLine hc)
    · refine (hlayout.indentLevel (hlayout.skipBlanks hstart)).bind fun level level' hlevel => ?_
      subst hlevel
      exact hlayout.keepsLines.skipLines _ (hlayout.keepsLines.nextLine hc)

end KeepsLayout

end Offside
