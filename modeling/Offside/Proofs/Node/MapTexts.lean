import Offside.Form.Assemble
import Offside.Proofs.Layout.InStep

/-!
# Nodes with other texts

`Node.mapTexts` changes every text in a node. What suits the trimming of texts and blocks suits the forms: of captures
with changed texts a form makes what it makes of the captures, with the texts changed.
-/

namespace Offside

variable (f : Text → Text)

/-! ## Changing texts -/

/-- A head with its texts changed. -/
def Head.mapTexts (h : Head) : Head :=
  ⟨f h.name, h.params.map f⟩

mutual

/-- A node with its texts changed, at every depth. -/
def Node.mapTexts : Node → Node
  | .ignore => .ignore
  | .text t => .text (f t)
  | .list items => .list (Node.mapTextsAll items)
  | .moduleDecl name exposing => .moduleDecl (f name) (exposing.map f)
  | .importDecl name clause => .importDecl (f name) (f clause)
  | .typeDecl first body => .typeDecl (f first) (f body)
  | .signature t => .signature (f t)
  | .head h => .head (h.mapTexts f)
  | .binding b => .binding b.mapTexts
  | .letIn bindings body => .letIn (Binding.mapTextsAll bindings) body.mapTexts
  | .ifThenElse condition yes no => .ifThenElse condition.mapTexts yes.mapTexts no.mapTexts
  | .caseHead subject => .caseHead (f subject)
  | .pattern t => .pattern (f t)
  | .arm a => .arm a.mapTexts
  | .caseOf subject arms => .caseOf (f subject) (Arm.mapTextsAll arms)
  | .tuple t => .tuple (f t)
  | .call tokens => .call (tokens.map f)
  | .unparsed t => .unparsed (f t)

/-- The nodes of a list with their texts changed. -/
def Node.mapTextsAll : List Node → List Node
  | [] => []
  | v :: vs => v.mapTexts :: Node.mapTextsAll vs

/-- A definition with its texts changed. -/
def Binding.mapTexts : Binding → Binding
  | ⟨h, body⟩ => ⟨h.mapTexts f, body.mapTexts⟩

/-- The definitions of a list with their texts changed. -/
def Binding.mapTextsAll : List Binding → List Binding
  | [] => []
  | b :: bs => b.mapTexts :: Binding.mapTextsAll bs

/-- An arm with its texts changed. -/
def Arm.mapTexts : Arm → Arm
  | ⟨pattern, body⟩ => ⟨f pattern, body.mapTexts⟩

/-- The arms of a list with their texts changed. -/
def Arm.mapTextsAll : List Arm → List Arm
  | [] => []
  | a :: as => a.mapTexts :: Arm.mapTextsAll as

end

theorem Node.mapTextsAll_eq_map (vs : List Node) : Node.mapTextsAll f vs = vs.map (Node.mapTexts f) := by
  induction vs with
  | nil => rfl
  | cons v vs ih => rw [Node.mapTextsAll, ih, List.map_cons]

theorem Binding.mapTextsAll_eq_map (bs : List Binding) : Binding.mapTextsAll f bs = bs.map (Binding.mapTexts f) := by
  induction bs with
  | nil => rfl
  | cons b bs ih => rw [Binding.mapTextsAll, ih, List.map_cons]

theorem Arm.mapTextsAll_eq_map (as : List Arm) : Arm.mapTextsAll f as = as.map (Arm.mapTexts f) := by
  induction as with
  | nil => rfl
  | cons a as ih => rw [Arm.mapTextsAll, ih, List.map_cons]

/-! ## Collapsing -/

namespace Node

@[simp] theorem isIgnore_mapTexts (v : Node) : (v.mapTexts f).isIgnore = v.isIgnore := by
  cases v <;> rfl

/-- The values that are kept are the same. -/
theorem filter_mapTexts (vs : List Node) :
    (vs.map (mapTexts f)).filter (!·.isIgnore) = (vs.filter (!·.isIgnore)).map (mapTexts f) := by
  rw [List.filter_map]
  congr 2
  funext v
  simp

theorem collapse_mapTexts (vs : List Node) : collapse (vs.map (mapTexts f)) = (collapse vs).mapTexts f := by
  rw [collapse, collapse, filter_mapTexts]
  cases vs.filter (!·.isIgnore) with
  | nil => rfl
  | cons v kept =>
    cases kept with
    | nil => rfl
    | cons w kept =>
      rw [mapTexts, mapTextsAll_eq_map]
      rfl

theorem listOf_mapTexts (vs : List Node) : listOf (vs.map (mapTexts f)) = (listOf vs).mapTexts f := by
  rw [listOf, filter_mapTexts, listOf, mapTexts, mapTextsAll_eq_map]

end Node

/-! ## Assembling -/

/-- A change of texts that goes together with what forms do with texts. -/
structure SuitsForms : Prop where
  /-- It makes no difference whether a text is trimmed before or after. -/
  trim : ∀ t : Text, (f t).trim = f t.trim
  /-- Nor does it for the lines of a block. -/
  normalizeBlock : ∀ t : Text, Offside.normalizeBlock (f t) = f (Offside.normalizeBlock t)

namespace Form

variable (form : Form) {f}

theorem pair_mapTexts (v : Node) :
    ChecksInStep (fun p p' : Node × Node => p.1 = p'.1.mapTexts f ∧ p.2 = p'.2.mapTexts f) (form.pair (v.mapTexts f))
      (form.pair v) := by
  cases v with
  | list items =>
    match items with
    | [] => exact .error rfl
    | [_] => exact .error rfl
    | [_, _] => exact .ok ⟨rfl, rfl⟩
    | _ :: _ :: _ :: _ => exact .error rfl
  | _ => exact .error rfl

theorem triple_mapTexts (v : Node) :
    ChecksInStep
      (fun p p' : Node × Node × Node => p.1 = p'.1.mapTexts f ∧ p.2.1 = p'.2.1.mapTexts f ∧ p.2.2 = p'.2.2.mapTexts f)
      (form.triple (v.mapTexts f)) (form.triple v) := by
  cases v with
  | list items =>
    match items with
    | [] => exact .error rfl
    | [_] => exact .error rfl
    | [_, _] => exact .error rfl
    | [_, _, _] => exact .ok ⟨rfl, rfl, rfl⟩
    | _ :: _ :: _ :: _ :: _ => exact .error rfl
  | _ => exact .error rfl

theorem textOf_mapTexts (v : Node) :
    ChecksInStep (fun t t' : Text => t = f t') (form.textOf (v.mapTexts f)) (form.textOf v) := by
  cases v with
  | text t => exact .ok rfl
  | _ => exact .error rfl

theorem itemsOf_mapTexts (v : Node) :
    ChecksInStep (List.Forall₂ fun w w' : Node => w = w'.mapTexts f) (form.itemsOf (v.mapTexts f)) (form.itemsOf v) := by
  cases v with
  | list items =>
    refine .ok ?_
    rw [← List.forall₂_map_right_iff, List.forall₂_eq_eq_eq]
    exact Node.mapTextsAll_eq_map f items
  | _ => exact .error rfl

theorem bindingOf_mapTexts (v : Node) :
    ChecksInStep (fun b b' : Binding => b = b'.mapTexts f) (form.bindingOf (v.mapTexts f)) (form.bindingOf v) := by
  cases v with
  | binding b => exact .ok rfl
  | _ => exact .error rfl

theorem armOf_mapTexts (v : Node) :
    ChecksInStep (fun a a' : Arm => a = a'.mapTexts f) (form.armOf (v.mapTexts f)) (form.armOf v) := by
  cases v with
  | arm a => exact .ok rfl
  | _ => exact .error rfl

/-- What a reader makes of the members of a list is the same, with the texts changed. -/
theorem mapM_mapTexts {α : Type} {read : Node → Except Fault α} {change : α → α}
    (hread : ∀ v : Node, ChecksInStep (fun x x' => x = change x') (read (v.mapTexts f)) (read v)) {vs vs' : List Node}
    (h : List.Forall₂ (fun v v' : Node => v = v'.mapTexts f) vs vs') :
    ChecksInStep (fun xs xs' => xs = xs'.map change) (vs.mapM read) (vs'.mapM read) := by
  have hall : ChecksInStep (List.Forall₂ fun x x' => x = change x') (vs.mapM read) (vs'.mapM read) :=
    .mapM h fun v v' hv => hv ▸ hread v'
  generalize vs.mapM read = e, vs'.mapM read = e' at hall
  cases hall with
  | ok related =>
    rw [← List.forall₂_map_right_iff, List.forall₂_eq_eq_eq] at related
    exact .ok related
  | error kind => exact .error kind

theorem textsOf_mapTexts (v : Node) :
    ChecksInStep (fun ts ts' : List Text => ts = ts'.map f) (form.textsOf (v.mapTexts f)) (form.textsOf v) :=
  (form.itemsOf_mapTexts v).bind fun _ _ hitems => mapM_mapTexts form.textOf_mapTexts hitems

variable (hf : SuitsForms f)

include hf

theorem trimmedOf_mapTexts (v : Node) :
    ChecksInStep (fun t t' : Text => t = f t') (form.trimmedOf (v.mapTexts f)) (form.trimmedOf v) := by
  refine (form.textOf_mapTexts v).map ?_
  rintro _ t rfl
  exact hf.trim t

/-- A node that is made of one trimmed text. -/
theorem map_trimmedOf_mapTexts {make : Text → Node} (hmake : ∀ t : Text, make (f t) = (make t).mapTexts f) (v : Node) :
    ChecksInStep (fun w w' : Node => w = w'.mapTexts f) (make <$> form.trimmedOf (v.mapTexts f))
      (make <$> form.trimmedOf v) := by
  refine (form.trimmedOf_mapTexts hf v).map ?_
  rintro _ t rfl
  exact hmake t

/-- A form makes of captures with changed texts what it makes of the captures, with the texts changed. -/
theorem assemble_mapTexts (v : Node) :
    ChecksInStep (fun w w' : Node => w = w'.mapTexts f) (form.assemble (v.mapTexts f)) (form.assemble v) := by
  cases form with
  | moduleDecl =>
    refine (pair_mapTexts _ v).bind ?_
    rintro ⟨_, _⟩ ⟨name, exposing⟩ ⟨rfl, rfl⟩
    refine (textOf_mapTexts _ name).bind ?_
    rintro _ t rfl
    refine (textsOf_mapTexts _ exposing).bind ?_
    rintro _ ts rfl
    exact .ok rfl
  | importDecl =>
    refine (pair_mapTexts _ v).bind ?_
    rintro ⟨_, _⟩ ⟨name, clause⟩ ⟨rfl, rfl⟩
    refine (trimmedOf_mapTexts _ hf name).bind ?_
    rintro _ t rfl
    refine (trimmedOf_mapTexts _ hf clause).bind ?_
    rintro _ u rfl
    exact .ok rfl
  | typeDecl =>
    refine (pair_mapTexts _ v).bind ?_
    rintro ⟨_, _⟩ ⟨first, rest⟩ ⟨rfl, rfl⟩
    refine (trimmedOf_mapTexts _ hf first).bind ?_
    rintro _ t rfl
    refine (textOf_mapTexts _ rest).bind ?_
    rintro _ u rfl
    rw [hf.normalizeBlock]
    exact .ok rfl
  | signature => exact map_trimmedOf_mapTexts _ hf (fun _ => rfl) v
  | head =>
    refine (pair_mapTexts _ v).bind ?_
    rintro ⟨_, _⟩ ⟨name, params⟩ ⟨rfl, rfl⟩
    refine (textOf_mapTexts _ name).bind ?_
    rintro _ t rfl
    refine (textsOf_mapTexts _ params).bind ?_
    rintro _ ts rfl
    exact .ok rfl
  | binding =>
    refine (pair_mapTexts _ v).bind ?_
    rintro ⟨_, _⟩ ⟨first, body⟩ ⟨rfl, rfl⟩
    cases first with
    | head h => exact .ok rfl
    | _ => exact .error rfl
  | letIn =>
    refine (pair_mapTexts _ v).bind ?_
    rintro ⟨_, _⟩ ⟨bindings, body⟩ ⟨rfl, rfl⟩
    refine (itemsOf_mapTexts _ bindings).bind fun _ _ hitems => ?_
    refine (mapM_mapTexts (bindingOf_mapTexts _) hitems).bind ?_
    rintro _ bs rfl
    rw [← Binding.mapTextsAll_eq_map]
    exact .ok rfl
  | ifThenElse =>
    refine (triple_mapTexts _ v).bind ?_
    rintro ⟨_, _, _⟩ ⟨condition, yes, no⟩ ⟨rfl, rfl, rfl⟩
    exact .ok rfl
  | caseHead => exact map_trimmedOf_mapTexts _ hf (fun _ => rfl) v
  | pattern => exact map_trimmedOf_mapTexts _ hf (fun _ => rfl) v
  | arm =>
    refine (pair_mapTexts _ v).bind ?_
    rintro ⟨_, _⟩ ⟨first, body⟩ ⟨rfl, rfl⟩
    cases first with
    | pattern t => exact .ok rfl
    | _ => exact .error rfl
  | caseOf =>
    refine (pair_mapTexts _ v).bind ?_
    rintro ⟨_, _⟩ ⟨first, arms⟩ ⟨rfl, rfl⟩
    cases first with
    | caseHead subject =>
      refine (itemsOf_mapTexts _ arms).bind fun _ _ hitems => ?_
      refine (mapM_mapTexts (armOf_mapTexts _) hitems).bind ?_
      rintro _ as rfl
      rw [← Arm.mapTextsAll_eq_map]
      exact .ok rfl
    | _ => exact .error rfl
  | tuple => exact map_trimmedOf_mapTexts _ hf (fun _ => rfl) v
  | call =>
    refine (textsOf_mapTexts _ v).map ?_
    rintro _ ts rfl
    rfl
  | unparsed => exact map_trimmedOf_mapTexts _ hf (fun _ => rfl) v

end Form

end Offside
