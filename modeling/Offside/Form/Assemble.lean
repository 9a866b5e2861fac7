import Offside.Fault

/-!
# Assembling nodes

How each form is put together from the value that a rule captured. A value of another shape is a fault: it comes from
a rule, so it tells that the rule is wired wrong. The fault shows the innermost value whose shape is wrong.
-/

namespace Offside

namespace Form

/-- The two values of a sequence that captured two. -/
def pair (form : Form) : Node → Except Fault (Node × Node)
  | .list [first, second] => .ok (first, second)
  | other => .error (.shape form other)

/-- The three values of a sequence that captured three. -/
def triple (form : Form) : Node → Except Fault (Node × Node × Node)
  | .list [first, second, third] => .ok (first, second, third)
  | other => .error (.shape form other)

/-- A captured text. -/
def textOf (form : Form) : Node → Except Fault Text
  | .text t => .ok t
  | other => .error (.shape form other)

/-- A captured text without the blanks around it. -/
def trimmedOf (form : Form) (captured : Node) : Except Fault Text :=
  (form.textOf captured).map Text.trim

/-- The values of a captured list. -/
def itemsOf (form : Form) : Node → Except Fault (List Node)
  | .list items => .ok items
  | other => .error (.shape form other)

/-- The texts of a captured list. -/
def textsOf (form : Form) (captured : Node) : Except Fault (List Text) := do
  (← form.itemsOf captured).mapM form.textOf

/-- A captured definition. -/
def bindingOf (form : Form) : Node → Except Fault Binding
  | .binding b => .ok b
  | other => .error (.shape form other)

/-- A captured arm. -/
def armOf (form : Form) : Node → Except Fault Arm
  | .arm a => .ok a
  | other => .error (.shape form other)

end Form

/-- Strips the blanks around every line and drops the lines that held nothing else. -/
def normalizeBlock (body : Text) : Text :=
  ['\n'].intercalate ((body.lines.map Text.trim).filter (!·.isEmpty))

/-- Puts a node together from what its rule captured. -/
def Form.assemble (form : Form) (captured : Node) : Except Fault Node :=
  match form with
  | .moduleDecl => do
    let (name, exposing) ← form.pair captured
    return .moduleDecl (← form.textOf name) (← form.textsOf exposing)
  | .importDecl => do
    let (name, clause) ← form.pair captured
    return .importDecl (← form.trimmedOf name) (← form.trimmedOf clause)
  | .typeDecl => do
    let (first, rest) ← form.pair captured
    return .typeDecl (← form.trimmedOf first) (normalizeBlock (← form.textOf rest))
  | .signature => .signature <$> form.trimmedOf captured
  | .head => do
    let (name, params) ← form.pair captured
    return .head ⟨← form.textOf name, ← form.textsOf params⟩
  | .binding => do
    match ← form.pair captured with
    | (.head h, body) => return .binding ⟨h, body⟩
    | (other, _) => throw (.shape form other)
  | .letIn => do
    let (bindings, body) ← form.pair captured
    return .letIn (← (← form.itemsOf bindings).mapM form.bindingOf) body
  | .ifThenElse => do
    let (condition, yes, no) ← form.triple captured
    return .ifThenElse condition yes no
  | .caseHead => .caseHead <$> form.trimmedOf captured
  | .pattern => .pattern <$> form.trimmedOf captured
  | .arm => do
    match ← form.pair captured with
    | (.pattern t, body) => return .arm ⟨t, body⟩
    | (other, _) => throw (.shape form other)
  | .caseOf => do
    match ← form.pair captured with
    | (.caseHead subject, arms) => return .caseOf subject (← (← form.itemsOf arms).mapM form.armOf)
    | (other, _) => throw (.shape form other)
  | .tuple => .tuple <$> form.trimmedOf captured
  | .call => .call <$> form.textsOf captured
  | .unparsed => .unparsed <$> form.trimmedOf captured

end Offside
