import Mathlib.Data.Set.List
import Offside.Form.Assemble

/-!
# The shapes that rules capture

What the forms make of the captures that the grammar produces: a list of captured texts, definitions or arms gives them
all back in order, and a capture that a sequence keeps has a meaning.
-/

namespace Offside

/-- Values that are all made by one function are what it makes of a list. -/
theorem exists_eq_map {α β : Type} {f : α → β} {ys : List β} (h : ∀ y ∈ ys, ∃ x, y = f x) :
    ∃ xs : List α, ys = xs.map f := by
  have hmem : ys ∈ Set.range (List.map f) := by
    rw [Set.range_list_map]
    intro y hy
    obtain ⟨x, rfl⟩ := h y hy
    exact ⟨x, rfl⟩
  obtain ⟨xs, rfl⟩ := hmem
  exact ⟨xs, rfl⟩

/-- Values that are all made from what has a property are what the function makes of a list of such. -/
theorem exists_forall_eq_map {α β : Type} {P : α → Prop} {f : α → β} {ys : List β} (h : ∀ y ∈ ys, ∃ x, P x ∧ y = f x) :
    ∃ xs : List α, (∀ x ∈ xs, P x) ∧ ys = xs.map f := by
  obtain ⟨xs, rfl⟩ := exists_eq_map (f := fun x : { x // P x } => f x) fun y hy => by
    obtain ⟨x, hx, rfl⟩ := h y hy
    exact ⟨⟨x, hx⟩, rfl⟩
  refine ⟨xs.map Subtype.val, fun x hx => ?_, by simp⟩
  obtain ⟨⟨x, hp⟩, -, rfl⟩ := List.mem_map.mp hx
  exact hp

/-- A reader that undoes a maker undoes it along a list. -/
theorem mapM_map_eq_ok {α β : Type} (make : α → β) (read : β → Except Fault α) (h : ∀ x, read (make x) = .ok x)
    (xs : List α) : (xs.map make).mapM read = .ok xs := by
  induction xs with
  | nil => rfl
  | cons x xs ih =>
    rw [List.map_cons, List.mapM_cons, h x, ih]
    rfl

/-- What a chain of checks gives comes from what its first check gives. -/
theorem exists_of_bind_eq_ok {α β : Type} {e : Except Fault α} {next : α → Except Fault β} {b : β}
    (h : e.bind next = .ok b) : ∃ a, e = .ok a ∧ next a = .ok b := by
  cases e with
  | error fault => cases h
  | ok a => exact ⟨a, rfl, h⟩

/-- What a check gives after a map is made of what it gives before. -/
theorem exists_of_map_eq_ok {α β : Type} {e : Except Fault α} {f : α → β} {b : β} (h : f <$> e = .ok b) :
    ∃ a, e = .ok a ∧ f a = b := by
  cases e with
  | error fault => cases h
  | ok a => exact ⟨a, rfl, Except.ok.inj h⟩

namespace Node

/-- A repetition of values with a meaning lists them all. -/
theorem listOf_map {α : Type} {make : α → Node} (h : ∀ x, (make x).isIgnore = false) (xs : List α) :
    listOf (xs.map make) = .list (xs.map make) := by
  have hkeep : (xs.map make).filter (!·.isIgnore) = xs.map make := by
    rw [List.filter_eq_self]
    intro v hv
    obtain ⟨x, -, rfl⟩ := List.mem_map.mp hv
    simp [h x]
  rw [listOf, hkeep]

/-- A sequence that skips and then captures gives what it captures; a list, if that has no meaning. -/
theorem collapse_ignore (v : Node) : collapse [.ignore, v] = if v.isIgnore then .list [] else v := by
  cases h : v.isIgnore <;> simp [collapse, h, show Node.ignore.isIgnore = true from rfl]

end Node

namespace Form

variable {form : Form}

theorem textsOf_texts (ts : List Text) : form.textsOf (.list (ts.map .text)) = .ok ts :=
  mapM_map_eq_ok Node.text form.textOf (fun _ => rfl) ts

theorem assemble_moduleDecl (name : Text) (exposing : List Text) :
    Form.moduleDecl.assemble (.list [.text name, .list (exposing.map .text)]) = .ok (.moduleDecl name exposing) := by
  simp only [assemble, pair, textOf, bind, Except.bind, textsOf_texts]
  rfl

theorem assemble_head (name : Text) (params : List Text) :
    Form.head.assemble (.list [.text name, .list (params.map .text)]) = .ok (.head ⟨name, params⟩) := by
  simp only [assemble, pair, textOf, bind, Except.bind, textsOf_texts]
  rfl

theorem assemble_pattern {t trimmed : Text} (h : t.trim = trimmed) :
    Form.pattern.assemble (.text t) = .ok (.pattern trimmed) := by
  rw [← h]
  rfl

theorem assemble_caseHead {t trimmed : Text} (h : t.trim = trimmed) :
    Form.caseHead.assemble (.text t) = .ok (.caseHead trimmed) := by
  rw [← h]
  rfl

theorem assemble_tuple {t trimmed : Text} (h : t.trim = trimmed) :
    Form.tuple.assemble (.text t) = .ok (.tuple trimmed) := by
  rw [← h]
  rfl

theorem assemble_letIn (bindings : List Binding) (body : Node) :
    Form.letIn.assemble (.list [.list (bindings.map .binding), body]) = .ok (.letIn bindings body) := by
  have hall := mapM_map_eq_ok Node.binding Form.letIn.bindingOf (fun _ => rfl) bindings
  simp only [assemble, pair, itemsOf, bind, Except.bind, hall]
  rfl

theorem assemble_caseOf (subject : Text) (arms : List Arm) :
    Form.caseOf.assemble (.list [.caseHead subject, .list (arms.map .arm)]) = .ok (.caseOf subject arms) := by
  have hall := mapM_map_eq_ok Node.arm Form.caseOf.armOf (fun _ => rfl) arms
  simp only [assemble, pair, itemsOf, bind, Except.bind, hall]
  rfl

theorem assemble_call (tokens : List Text) :
    Form.call.assemble (.list (tokens.map .text)) = .ok (.call tokens) := by
  simp only [assemble, textsOf_texts]
  rfl

/-! ## The form of what is assembled -/

variable {captured v : Node}

theorem exists_of_assemble_letIn (h : Form.letIn.assemble captured = .ok v) :
    ∃ bindings body, v = .letIn bindings body := by
  obtain ⟨⟨_, body⟩, -, h⟩ := exists_of_bind_eq_ok h
  obtain ⟨_, -, h⟩ := exists_of_bind_eq_ok h
  obtain ⟨bindings, -, h⟩ := exists_of_bind_eq_ok h
  exact ⟨bindings, body, (Except.ok.inj h).symm⟩

theorem exists_of_assemble_ifThenElse (h : Form.ifThenElse.assemble captured = .ok v) :
    ∃ condition yes no, v = .ifThenElse condition yes no := by
  obtain ⟨⟨condition, yes, no⟩, -, h⟩ := exists_of_bind_eq_ok h
  exact ⟨condition, yes, no, (Except.ok.inj h).symm⟩

theorem exists_of_assemble_caseOf (h : Form.caseOf.assemble captured = .ok v) :
    ∃ subject arms, v = .caseOf subject arms := by
  obtain ⟨⟨first, _⟩, -, h⟩ := exists_of_bind_eq_ok h
  cases first with
  | caseHead subject =>
    obtain ⟨_, -, h⟩ := exists_of_bind_eq_ok h
    obtain ⟨arms, -, h⟩ := exists_of_bind_eq_ok h
    exact ⟨subject, arms, (Except.ok.inj h).symm⟩
  | _ => cases h

theorem exists_of_assemble_tuple (h : Form.tuple.assemble captured = .ok v) : ∃ t, v = .tuple t := by
  obtain ⟨t, -, h⟩ := exists_of_map_eq_ok h
  exact ⟨t, h.symm⟩

theorem exists_of_assemble_unparsed (h : Form.unparsed.assemble captured = .ok v) : ∃ t, v = .unparsed t := by
  obtain ⟨t, -, h⟩ := exists_of_map_eq_ok h
  exact ⟨t, h.symm⟩

end Form

end Offside
