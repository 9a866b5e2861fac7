import Offside.Node.Basic
import Offside.Text.Quoted

/-!
# Nodes as structural text

The description of a node names its shape and all that it holds, with texts quoted, on one line. Messages about a
value of the wrong shape show it.
-/

namespace Offside

/-- A bracketed list of descriptions. -/
def describeList (items : List Text) : Text :=
  "[".toList ++ ", ".toList.intercalate items ++ "]".toList

/-- A shape with one unnamed part. -/
def describeWrapped (shape : String) (part : Text) : Text :=
  shape.toList ++ "(".toList ++ part ++ ")".toList

/-- A shape with named parts. -/
def describeRecord (shape : String) (parts : List (String × Text)) : Text :=
  shape.toList ++ " \x7b ".toList ++
    ", ".toList.intercalate (parts.map fun part => part.1.toList ++ ": ".toList ++ part.2) ++ " \x7d".toList

/-- Quoted texts in a list. -/
def describeTexts (texts : List Text) : Text :=
  describeList (texts.map quoted)

/-- A definition head as structural text. -/
def Head.describe (h : Head) : Text :=
  describeRecord "Def" [("name", quoted h.name), ("params", describeTexts h.params)]

mutual

/-- A node as structural text. -/
def Node.describe : Node → Text
  | .ignore => "Ignore".toList
  | .text t => describeWrapped "Text" (quoted t)
  | .list items => describeWrapped "List" (describeList (Node.describes items))
  | .moduleDecl name exposing =>
    describeRecord "Module" [("name", quoted name), ("exposing", describeTexts exposing)]
  | .importDecl name clause => describeRecord "Import" [("module", quoted name), ("clause", quoted clause)]
  | .typeDecl head body => describeRecord "TypeDecl" [("head", quoted head), ("body", quoted body)]
  | .signature t => describeWrapped "Annotation" (quoted t)
  | .head h => describeWrapped "Def" h.describe
  | .binding b => describeWrapped "Binding" b.describe
  | .letIn bindings body =>
    describeRecord "Let" [("bindings", describeList (Binding.describes bindings)), ("body", body.describe)]
  | .ifThenElse condition yes no =>
    describeWrapped "If" ("(".toList ++
      ", ".toList.intercalate [condition.describe, yes.describe, no.describe] ++ ")".toList)
  | .caseHead subject => describeRecord "CaseOf" [("subject", quoted subject)]
  | .pattern t => describeRecord "PatternDef" [("text", quoted t)]
  | .arm a => describeWrapped "OneCase" a.describe
  | .caseOf subject arms =>
    describeRecord "Case" [("subject", quoted subject), ("arms", describeList (Arm.describes arms))]
  | .tuple t => describeRecord "Tuple" [("text", quoted t)]
  | .call tokens => describeRecord "Call" [("tokens", describeTexts tokens)]
  | .unparsed t => describeRecord "UnParsed" [("text", quoted t)]

/-- Nodes as structural texts, in order. -/
def Node.describes : List Node → List Text
  | [] => []
  | n :: ns => n.describe :: Node.describes ns

/-- A definition as structural text. -/
def Binding.describe : Binding → Text
  | ⟨head, body⟩ => describeRecord "Binding" [("def", head.describe), ("body", body.describe)]

/-- Definitions as structural texts, in order. -/
def Binding.describes : List Binding → List Text
  | [] => []
  | b :: bs => b.describe :: Binding.describes bs

/-- An arm as structural text. -/
def Arm.describe : Arm → Text
  | ⟨pattern, body⟩ => describeRecord "OneCase" [("pattern", quoted pattern), ("body", body.describe)]

/-- Arms as structural texts, in order. -/
def Arm.describes : List Arm → List Text
  | [] => []
  | a :: as => a.describe :: Arm.describes as

end

end Offside
