/-!
# Forms

The kinds of node that a rule assembles from what it captured.
-/

namespace Offside

/-- A kind of node that is assembled from captures. -/
inductive Form where
  /-- From a name and the list of what is exposed. -/
  | moduleDecl
  /-- From a name and a clause. -/
  | importDecl
  /-- From a head and a body. -/
  | typeDecl
  /-- From its text. -/
  | signature
  /-- From a name and the list of parameters. -/
  | head
  /-- From a definition head and a body. -/
  | binding
  /-- From a list of definitions and a body. -/
  | letIn
  /-- From a condition and two branches. -/
  | ifThenElse
  /-- From the text of the subject. -/
  | caseHead
  /-- From its text. -/
  | pattern
  /-- From a pattern and a body. -/
  | arm
  /-- From the head of a case expression and a list of arms. -/
  | caseOf
  /-- From the text in the parentheses. -/
  | tuple
  /-- From the list of its tokens. -/
  | call
  /-- From its text. -/
  | unparsed
deriving DecidableEq

/-- The name of a form in messages. -/
def Form.label : Form → String
  | moduleDecl => "Module"
  | importDecl => "Import"
  | typeDecl => "TypeDecl"
  | signature => "Annotation"
  | head => "Def"
  | binding => "Binding"
  | letIn => "Let"
  | ifThenElse => "If"
  | caseHead => "CaseOf"
  | pattern => "PatternDef"
  | arm => "OneCase"
  | caseOf => "Case"
  | tuple => "Tuple"
  | call => "Call"
  | unparsed => "UnParsed"

end Offside
