import Offside.Text.Basic

/-!
# Nodes

What a parse produces. Besides the nodes of a program there are the raw captures that a rule collects on its way to a
node: `ignore`, `text` and `list`. `collapse` and `list` gather several captures into one value; neither keeps an
`ignore`.
-/

namespace Offside

/-- The head of a definition: its name, and its parameters as written, parentheses included. -/
structure Head where
  /-- The name defined. -/
  name : Text
  /-- Bare names or parenthesised groups. -/
  params : List Text
deriving DecidableEq

mutual

/-- A value that parsing produces. -/
inductive Node where
  /-- Matched, without a meaning of its own. -/
  | ignore
  /-- The text that a scanner went over. -/
  | text (captured : Text)
  /-- Several values in order. -/
  | list (items : List Node)
  /-- A module header with the items it exposes; exposing everything is the single item of two dots. -/
  | moduleDecl (name : Text) (exposing : List Text)
  /-- An import; the clause is the rest of the statement. -/
  | importDecl (name clause : Text)
  /-- A type declaration; the head is the rest of its first line. -/
  | typeDecl (head body : Text)
  /-- A type signature, as written. -/
  | signature (text : Text)
  /-- The head of a definition, without its body. -/
  | head (head : Head)
  /-- A definition. -/
  | binding (binding : Binding)
  /-- Local definitions and the expression that uses them. -/
  | letIn (bindings : List Binding) (body : Node)
  /-- A condition and its two branches. -/
  | ifThenElse (condition yes no : Node)
  /-- The first line of a case expression, without the arms. -/
  | caseHead (subject : Text)
  /-- The pattern of an arm, without its arrow. -/
  | pattern (text : Text)
  /-- One arm of a case expression. -/
  | arm (arm : Arm)
  /-- A case expression. -/
  | caseOf (subject : Text) (arms : List Arm)
  /-- Parentheses around a whole expression, with the text inside. -/
  | tuple (text : Text)
  /-- A function and its arguments, or a single name. -/
  | call (tokens : List Text)
  /-- Text that no rule understood. -/
  | unparsed (text : Text)

/-- A definition: its head and the expression it stands for. -/
structure Binding where
  /-- The name and parameters. -/
  head : Head
  /-- The right-hand side. -/
  body : Node

/-- An arm of a case expression: a pattern and the expression it selects. -/
structure Arm where
  /-- What comes before the arrow. -/
  pattern : Text
  /-- What comes after it. -/
  body : Node

end

namespace Node

/-- Whether a node is matched text without a meaning. -/
def isIgnore : Node → Bool
  | ignore => true
  | _ => false

/-- The value of a sequence of captures: those with a meaning, as a list unless there is exactly one. -/
def collapse (values : List Node) : Node :=
  match values.filter (!·.isIgnore) with
  | [value] => value
  | kept => list kept

/-- The value of a repetition: always a list, of the values with a meaning. -/
def listOf (values : List Node) : Node :=
  list (values.filter (!·.isIgnore))

end Node

end Offside
