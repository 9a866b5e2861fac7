import Offside.Proofs.LineEndings.Texts
import Offside.Proofs.Node.MapTexts
import Offside.Proofs.Node.WellFormed

/-!
# Nodes with carriage returns

`Node.bare` is a node without the carriage returns in its texts. A form makes of captures without them what it makes of the
captures, without them.
-/

namespace Offside

/-! ## Nodes without carriage returns -/

/-- A head without the carriage returns in its texts. -/
def Head.bare (h : Head) : Head :=
  ⟨h.name.bare, h.params.map Text.bare⟩

mutual

/-- A node without the carriage returns in its texts, at every depth. -/
def Node.bare : Node → Node
  | .ignore => .ignore
  | .text t => .text t.bare
  | .list items => .list (Node.bareAll items)
  | .moduleDecl name exposing => .moduleDecl name.bare (exposing.map Text.bare)
  | .importDecl name clause => .importDecl name.bare clause.bare
  | .typeDecl first body => .typeDecl first.bare body.bare
  | .signature t => .signature t.bare
  | .head h => .head h.bare
  | .binding b => .binding b.bare
  | .letIn bindings body => .letIn (Binding.bareAll bindings) body.bare
  | .ifThenElse condition yes no => .ifThenElse condition.bare yes.bare no.bare
  | .caseHead subject => .caseHead subject.bare
  | .pattern t => .pattern t.bare
  | .arm a => .arm a.bare
  | .caseOf subject arms => .caseOf subject.bare (Arm.bareAll arms)
  | .tuple t => .tuple t.bare
  | .call tokens => .call (tokens.map Text.bare)
  | .unparsed t => .unparsed t.bare

/-- The nodes of a list without the carriage returns. -/
def Node.bareAll : List Node → List Node
  | [] => []
  | v :: vs => v.bare :: Node.bareAll vs

/-- A definition without the carriage returns in its texts. -/
def Binding.bare : Binding → Binding
  | ⟨h, body⟩ => ⟨h.bare, body.bare⟩

/-- The definitions of a list without the carriage returns. -/
def Binding.bareAll : List Binding → List Binding
  | [] => []
  | b :: bs => b.bare :: Binding.bareAll bs

/-- An arm without the carriage returns in its texts. -/
def Arm.bare : Arm → Arm
  | ⟨pattern, body⟩ => ⟨pattern.bare, body.bare⟩

/-- The arms of a list without the carriage returns. -/
def Arm.bareAll : List Arm → List Arm
  | [] => []
  | a :: as => a.bare :: Arm.bareAll as

end

mutual

theorem Node.bare_eq_mapTexts : (v : Node) → v.bare = v.mapTexts Text.bare
  | .ignore => rfl
  | .text _ => rfl
  | .list items => congrArg Node.list (Node.bareAll_eq_mapTextsAll items)
  | .moduleDecl _ _ => rfl
  | .importDecl _ _ => rfl
  | .typeDecl _ _ => rfl
  | .signature _ => rfl
  | .head _ => rfl
  | .binding b => congrArg Node.binding b.bare_eq_mapTexts
  | .letIn bindings body => congrArg₂ Node.letIn (Binding.bareAll_eq_mapTextsAll bindings) body.bare_eq_mapTexts
  | .ifThenElse condition yes no => by
    rw [Node.bare, Node.mapTexts, condition.bare_eq_mapTexts, yes.bare_eq_mapTexts, no.bare_eq_mapTexts]
  | .caseHead _ => rfl
  | .pattern _ => rfl
  | .arm a => congrArg Node.arm a.bare_eq_mapTexts
  | .caseOf subject arms => congrArg (Node.caseOf subject.bare) (Arm.bareAll_eq_mapTextsAll arms)
  | .tuple _ => rfl
  | .call _ => rfl
  | .unparsed _ => rfl

theorem Node.bareAll_eq_mapTextsAll : (vs : List Node) → Node.bareAll vs = Node.mapTextsAll Text.bare vs
  | [] => rfl
  | v :: vs => congrArg₂ List.cons v.bare_eq_mapTexts (Node.bareAll_eq_mapTextsAll vs)

theorem Binding.bare_eq_mapTexts : (b : Binding) → b.bare = b.mapTexts Text.bare
  | ⟨h, body⟩ => congrArg (Binding.mk h.bare) body.bare_eq_mapTexts

theorem Binding.bareAll_eq_mapTextsAll : (bs : List Binding) → Binding.bareAll bs = Binding.mapTextsAll Text.bare bs
  | [] => rfl
  | b :: bs => congrArg₂ List.cons b.bare_eq_mapTexts (Binding.bareAll_eq_mapTextsAll bs)

theorem Arm.bare_eq_mapTexts : (a : Arm) → a.bare = a.mapTexts Text.bare
  | ⟨pattern, body⟩ => congrArg (Arm.mk pattern.bare) body.bare_eq_mapTexts

theorem Arm.bareAll_eq_mapTextsAll : (as : List Arm) → Arm.bareAll as = Arm.mapTextsAll Text.bare as
  | [] => rfl
  | a :: as => congrArg₂ List.cons a.bare_eq_mapTexts (Arm.bareAll_eq_mapTextsAll as)

end

namespace Node

theorem bare_eq : Node.bare = Node.mapTexts Text.bare :=
  funext bare_eq_mapTexts

theorem bareAll_eq_map (vs : List Node) : Node.bareAll vs = vs.map Node.bare := by
  rw [bareAll_eq_mapTextsAll, mapTextsAll_eq_map, bare_eq]

/-- The values that are kept are the same. -/
theorem filter_bare (vs : List Node) :
    (vs.map bare).filter (!·.isIgnore) = (vs.filter (!·.isIgnore)).map bare := by
  rw [bare_eq, filter_mapTexts]

theorem collapse_bare (vs : List Node) : collapse (vs.map bare) = (collapse vs).bare := by
  rw [bare_eq, collapse_mapTexts]

theorem listOf_bare (vs : List Node) : listOf (vs.map bare) = (listOf vs).bare := by
  rw [bare_eq, listOf_mapTexts]

end Node

/-! ## Blocks of text -/

namespace Text

theorem lines_ne_nil (t : Text) : t.lines ≠ [] := by
  cases t with
  | nil => simp [lines]
  | cons ch t =>
    rw [lines]
    split
    · simp
    · split <;> simp

theorem lines_bare (t : Text) : t.bare.lines = t.lines.map bare := by
  induction t with
  | nil => rfl
  | cons ch t ih =>
    obtain ⟨line, more, hlines⟩ := List.exists_cons_of_ne_nil (lines_ne_nil t)
    rw [hlines, List.map_cons] at ih
    by_cases hch : ch = '\r'
    · subst hch
      rw [bare_cons_return, ih, lines, hlines]
      rfl
    · rw [bare_cons hch, lines, lines, hlines, ih]
      split
      · rfl
      · rw [List.map_cons, bare_cons hch]

/-- What is trimmed begins with no carriage return. -/
theorem isEmpty_trim_bare (t : Text) : t.trim.bare.isEmpty = t.trim.isEmpty := by
  have hhead := (trimmed_trim t).head
  cases htrim : t.trim with
  | nil => rfl
  | cons ch rest =>
    have hch : ch ≠ '\r' := by
      rintro rfl
      rw [htrim, List.head?_cons] at hhead
      exact absurd hhead (by decide)
    rw [bare_cons hch]
    rfl

theorem intercalate_bare (ts : List Text) : bare (['\n'].intercalate ts) = ['\n'].intercalate (ts.map bare) := by
  induction ts with
  | nil => rfl
  | cons t ts ih =>
    cases ts with
    | nil => simp
    | cons u ts =>
      rw [List.map_cons, List.map_cons, List.intercalate_cons_cons, List.intercalate_cons_cons, bare_append, bare_append, ih]
      rfl

end Text

theorem normalizeBlock_bare (body : Text) : normalizeBlock body.bare = (normalizeBlock body).bare := by
  have hkept : (body.bare.lines.map Text.trim).filter (!·.isEmpty) =
      ((body.lines.map Text.trim).filter (!·.isEmpty)).map Text.bare := by
    have htrim : body.bare.lines.map Text.trim = (body.lines.map Text.trim).map Text.bare := by
      simp [Text.lines_bare, Text.trim_bare]
    rw [htrim, List.filter_map, List.filter_map, List.filter_map]
    congr 3
    funext line
    simp [Text.isEmpty_trim_bare]
  rw [normalizeBlock, hkept, normalizeBlock, Text.intercalate_bare]

/-! ## Assembling -/

theorem suitsForms_bare : SuitsForms Text.bare where
  trim := Text.trim_bare
  normalizeBlock := normalizeBlock_bare

/-- A form makes of captures without carriage returns what it makes of the captures, without them. -/
theorem Form.assemble_bare (form : Form) (v : Node) :
    ChecksInStep (fun w w' : Node => w = w'.bare) (form.assemble v.bare) (form.assemble v) := by
  simpa only [Node.bare_eq_mapTexts] using form.assemble_mapTexts suitsForms_bare v

end Offside
