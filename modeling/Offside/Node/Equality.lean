import Offside.Node.Basic

/-!
# Equality of nodes

Two nodes are the same when they have one shape and hold the same texts. `same_iff` says that this is equality, which
makes equality of nodes decidable.
-/

namespace Offside

mutual

/-- Whether two nodes have one shape and hold the same texts. -/
def Node.same : Node → Node → Bool
  | .ignore, .ignore => true
  | .text s, .text t => s == t
  | .list as, .list bs => Node.sameAll as bs
  | .moduleDecl s as, .moduleDecl t bs => s == t && as == bs
  | .importDecl s u, .importDecl t v => s == t && u == v
  | .typeDecl s u, .typeDecl t v => s == t && u == v
  | .signature s, .signature t => s == t
  | .head a, .head b => a == b
  | .binding a, .binding b => a.same b
  | .letIn as a, .letIn bs b => Binding.sameAll as bs && a.same b
  | .ifThenElse c a u, .ifThenElse d b v => c.same d && a.same b && u.same v
  | .caseHead s, .caseHead t => s == t
  | .pattern s, .pattern t => s == t
  | .arm a, .arm b => a.same b
  | .caseOf s as, .caseOf t bs => s == t && Arm.sameAll as bs
  | .tuple s, .tuple t => s == t
  | .call as, .call bs => as == bs
  | .unparsed s, .unparsed t => s == t
  | _, _ => false

/-- Whether two lists hold the same nodes in order. -/
def Node.sameAll : List Node → List Node → Bool
  | [], [] => true
  | a :: as, b :: bs => a.same b && Node.sameAll as bs
  | _, _ => false

/-- Whether two definitions have one head and the same body. -/
def Binding.same : Binding → Binding → Bool
  | ⟨h, a⟩, ⟨k, b⟩ => h == k && a.same b

/-- Whether two lists hold the same definitions in order. -/
def Binding.sameAll : List Binding → List Binding → Bool
  | [], [] => true
  | a :: as, b :: bs => a.same b && Binding.sameAll as bs
  | _, _ => false

/-- Whether two arms have one pattern and the same body. -/
def Arm.same : Arm → Arm → Bool
  | ⟨s, a⟩, ⟨t, b⟩ => s == t && a.same b

/-- Whether two lists hold the same arms in order. -/
def Arm.sameAll : List Arm → List Arm → Bool
  | [], [] => true
  | a :: as, b :: bs => a.same b && Arm.sameAll as bs
  | _, _ => false

end

mutual

theorem Node.same_iff (a b : Node) : a.same b = true ↔ a = b := by
  cases a with
  | list as => cases b <;> simp [Node.same, Node.sameAll_iff as]
  | binding x => cases b <;> simp [Node.same, Binding.same_iff x]
  | letIn xs y => cases b <;> simp [Node.same, Binding.sameAll_iff xs, Node.same_iff y]
  | ifThenElse x y z => cases b <;> simp [Node.same, Node.same_iff x, Node.same_iff y, Node.same_iff z, and_assoc]
  | arm x => cases b <;> simp [Node.same, Arm.same_iff x]
  | caseOf s xs => cases b <;> simp [Node.same, Arm.sameAll_iff xs]
  | _ => cases b <;> simp [Node.same]

theorem Node.sameAll_iff (as bs : List Node) : Node.sameAll as bs = true ↔ as = bs := by
  cases as with
  | nil => cases bs <;> simp [Node.sameAll]
  | cons x xs => cases bs <;> simp [Node.sameAll, Node.same_iff x, Node.sameAll_iff xs]

theorem Binding.same_iff (a b : Binding) : a.same b = true ↔ a = b := by
  cases a with
  | mk h x => cases b; simp [Binding.same, Node.same_iff x]

theorem Binding.sameAll_iff (as bs : List Binding) : Binding.sameAll as bs = true ↔ as = bs := by
  cases as with
  | nil => cases bs <;> simp [Binding.sameAll]
  | cons x xs => cases bs <;> simp [Binding.sameAll, Binding.same_iff x, Binding.sameAll_iff xs]

theorem Arm.same_iff (a b : Arm) : a.same b = true ↔ a = b := by
  cases a with
  | mk s x => cases b; simp [Arm.same, Node.same_iff x]

theorem Arm.sameAll_iff (as bs : List Arm) : Arm.sameAll as bs = true ↔ as = bs := by
  cases as with
  | nil => cases bs <;> simp [Arm.sameAll]
  | cons x xs => cases bs <;> simp [Arm.sameAll, Arm.same_iff x, Arm.sameAll_iff xs]

end

instance : DecidableEq Node := fun a b => decidable_of_iff (a.same b) (Node.same_iff a b)

instance : DecidableEq Binding := fun a b => decidable_of_iff (a.same b) (Binding.same_iff a b)

instance : DecidableEq Arm := fun a b => decidable_of_iff (a.same b) (Arm.same_iff a b)

end Offside
