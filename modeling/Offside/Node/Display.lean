import Offside.Node.Basic
import Offside.Text.Quoted

/-!
# Nodes as source-like text

The display of a node is one line of source-like text with normal spacing (line breaks only where a text inside has
them). Raw captures show as an underscore, quoted text, or a bracketed list.
-/

namespace Offside

/-- A definition head as written, its parameters after single blanks. -/
def Head.display (h : Head) : Text :=
  h.name ++ h.params.flatMap (' ' :: ·)

mutual

/-- A node as source-like text. -/
def Node.display : Node → Text
  | .ignore => "_".toList
  | .text t => quoted t
  | .list items => "[".toList ++ ", ".toList.intercalate (Node.displays items) ++ "]".toList
  | .moduleDecl name exposing =>
    "module ".toList ++ name ++ " exposing (".toList ++ ", ".toList.intercalate exposing ++ ")".toList
  | .importDecl name clause => "import ".toList ++ name ++ " ".toList ++ clause
  | .typeDecl head body => "type ".toList ++ head ++ " ".toList ++ quoted body
  | .signature t => t
  | .head h => h.display
  | .binding b => b.display
  | .letIn bindings body =>
    "let ".toList ++ "; ".toList.intercalate (Binding.displays bindings) ++ " in ".toList ++ body.display
  | .ifThenElse condition yes no =>
    "if ".toList ++ condition.display ++ " then ".toList ++ yes.display ++ " else ".toList ++ no.display
  | .caseHead subject => "case ".toList ++ subject ++ " of".toList
  | .pattern t => t ++ " ->".toList
  | .arm a => a.display
  | .caseOf subject arms => "case ".toList ++ subject ++ " of ".toList ++ "; ".toList.intercalate (Arm.displays arms)
  | .tuple t => "(".toList ++ t ++ ")".toList
  | .call tokens => " ".toList.intercalate tokens
  | .unparsed t => "unparsed: ".toList ++ t

/-- Nodes as source-like texts, in order. -/
def Node.displays : List Node → List Text
  | [] => []
  | n :: ns => n.display :: Node.displays ns

/-- A definition as source-like text. -/
def Binding.display : Binding → Text
  | ⟨head, body⟩ => head.display ++ " = ".toList ++ body.display

/-- Definitions as source-like texts, in order. -/
def Binding.displays : List Binding → List Text
  | [] => []
  | b :: bs => b.display :: Binding.displays bs

/-- An arm as source-like text. -/
def Arm.display : Arm → Text
  | ⟨pattern, body⟩ => pattern ++ " -> ".toList ++ body.display

/-- Arms as source-like texts, in order. -/
def Arm.displays : List Arm → List Text
  | [] => []
  | a :: as => a.display :: Arm.displays as

end

end Offside
