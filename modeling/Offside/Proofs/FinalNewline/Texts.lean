import Offside.Proofs.Cursor.Continued
import Offside.Proofs.LineEndings.Nodes

/-!
# Texts with a newline after them

What is asked about the visible part of a text has the same answer with a newline after the text: `indexOf?_newline` for
literals without newlines, `trim_newline` and `normalizeBlock_newline` for what a form does with a captured text. So a
form makes the same node of captures that differ in such a newline, if it trims what it captures.
-/

namespace Offside

namespace Text

/-! ## Literals -/

theorem indexOf?_newline {literal : Text} (h : '\n' ∉ literal) (t : Text) :
    (t ++ ['\n']).indexOf? literal = t.indexOf? literal :=
  indexOf?_append_newline h (fun hne => by simpa [indexOf?] using hne) t

/-! ## Trimming -/

theorem trimEnd_newline (t : Text) : trimEnd (t ++ ['\n']) = t.trimEnd :=
  trimEnd_append_of_all (by decide)

theorem trim_newline (t : Text) : trim (t ++ ['\n']) = t.trim := by
  rw [trim, List.dropWhile_append]
  split
  · next hblank =>
    rw [List.isEmpty_iff] at hblank
    rw [trim, hblank]
    decide
  · rw [trimEnd_newline, trim]

/-- A newline at the end is after the first line. -/
theorem firstLine_newline (t : Text) : firstLine (t ++ ['\n']) = t.firstLine :=
  Cursor.takeWhile_append_newline t []

theorem lines_newline (t : Text) : lines (t ++ ['\n']) = t.lines ++ [[]] := by
  induction t with
  | nil => rfl
  | cons ch t ih =>
    obtain ⟨line, more, hlines⟩ := List.exists_cons_of_ne_nil (lines_ne_nil t)
    rw [List.cons_append, lines, ih, lines, hlines]
    split <;> rfl

end Text

theorem normalizeBlock_newline (body : Text) : normalizeBlock (body ++ ['\n']) = normalizeBlock body := by
  have hempty : List.filter (!·.isEmpty) [Text.trim []] = [] := by decide
  rw [normalizeBlock, Text.lines_newline, List.map_append, List.filter_append, List.map_singleton, hempty,
    List.append_nil, normalizeBlock]

/-! ## Captures -/

namespace Node

/-- Two captures are the same, or texts of which the second has a newline more at its end. -/
inductive Trails : Node → Node → Prop where
  | same (v : Node) : Trails v v
  | text (t : Text) : Trails (.text t) (.text (t ++ ['\n']))

/-- Two collapsed captures that were gathered from such captures in turn. -/
inductive TrailsAll : Node → Node → Prop where
  | one {v v' : Node} (h : v.Trails v') : TrailsAll v v'
  | list {vs vs' : List Node} (h : List.Forall₂ Trails vs vs') : TrailsAll (.list vs) (.list vs')

theorem Trails.isIgnore {v v' : Node} (h : v.Trails v') : v.isIgnore = v'.isIgnore := by
  cases h <;> rfl

theorem filter_trails {vs vs' : List Node} (h : List.Forall₂ Trails vs vs') :
    List.Forall₂ Trails (vs.filter (!·.isIgnore)) (vs'.filter (!·.isIgnore)) := by
  induction h with
  | nil => exact .nil
  | @cons v v' vs vs' hv _ ih =>
    rw [List.filter_cons, List.filter_cons, hv.isIgnore]
    split
    · exact .cons hv ih
    · exact ih

theorem collapse_trails {vs vs' : List Node} (h : List.Forall₂ Trails vs vs') :
    (collapse vs).TrailsAll (collapse vs') := by
  have hkept := filter_trails h
  unfold collapse
  generalize vs.filter (!·.isIgnore) = kept, vs'.filter (!·.isIgnore) = kept' at hkept
  cases hkept with
  | nil => exact .one (.same _)
  | cons hv hmore =>
    cases hmore with
    | nil => exact .one hv
    | cons hw hmore => exact .list (.cons hv (.cons hw hmore))

end Node

/-! ## Assembling -/

namespace Form

open Node

variable (form : Form) {v v' : Node}

theorem textOf_trails (h : v.Trails v') :
    ChecksInStep (fun t t' : Text => t' = t ∨ t' = t ++ ['\n']) (form.textOf v) (form.textOf v') := by
  cases h with
  | text t => exact .ok (Or.inr rfl)
  | same =>
    cases form.textOf v with
    | ok t => exact .ok (Or.inl rfl)
    | error fault => exact .error rfl

theorem trimmedOf_trails (h : v.Trails v') :
    ChecksInStep (· = ·) (form.trimmedOf v) (form.trimmedOf v') := by
  refine (form.textOf_trails h).map ?_
  rintro t _ (rfl | rfl)
  · rfl
  · exact (Text.trim_newline t).symm

theorem pair_trails (h : v.TrailsAll v') :
    ChecksInStep (fun p p' : Node × Node => p.1.Trails p'.1 ∧ p.2.Trails p'.2) (form.pair v) (form.pair v') := by
  cases h with
  | one h =>
    cases h with
    | text t => exact .error rfl
    | same =>
      cases form.pair v with
      | ok p => exact .ok ⟨.same _, .same _⟩
      | error fault => exact .error rfl
  | list h =>
    cases h with
    | nil => exact .error rfl
    | cons hfirst hmore =>
      cases hmore with
      | nil => exact .error rfl
      | cons hsecond hmore =>
        cases hmore with
        | nil => exact .ok ⟨hfirst, hsecond⟩
        | cons hthird hmore => exact .error rfl

/-- Imports, types, signatures and what is left unparsed are the same nodes. -/
theorem assemble_trails (hform : form ∈ [.importDecl, .typeDecl, .signature, .unparsed]) (h : v.TrailsAll v') :
    ChecksInStep (· = ·) (form.assemble v) (form.assemble v') := by
  have htrimmed {make : Text → Node} :
      ChecksInStep (· = ·) (make <$> form.trimmedOf v) (make <$> form.trimmedOf v') := by
    cases h with
    | one h => exact (form.trimmedOf_trails h).map fun _ _ ht => congrArg make ht
    | list h => exact .error rfl
  simp only [List.mem_cons, List.not_mem_nil, or_false] at hform
  rcases hform with rfl | rfl | rfl | rfl
  · refine (pair_trails _ h).bind ?_
    rintro ⟨name, clause⟩ ⟨name', clause'⟩ ⟨hname, hclause⟩
    refine (trimmedOf_trails _ hname).bind ?_
    rintro t _ rfl
    refine (trimmedOf_trails _ hclause).bind ?_
    rintro u _ rfl
    exact .ok rfl
  · refine (pair_trails _ h).bind ?_
    rintro ⟨first, rest⟩ ⟨first', rest'⟩ ⟨hfirst, hrest⟩
    refine (trimmedOf_trails _ hfirst).bind ?_
    rintro t _ rfl
    refine (textOf_trails _ hrest).bind ?_
    rintro u _ (rfl | rfl)
    · exact .ok rfl
    · rw [normalizeBlock_newline]
      exact .ok rfl
  · exact htrimmed
  · exact htrimmed

end Form

end Offside
