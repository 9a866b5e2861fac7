/-!
# Rules

The names of the rules of the grammar. A parser refers to a rule by its name, so that rules can refer to each other.
-/

namespace Offside

/-- A rule of the grammar. -/
inductive Rule where
  /-- The header of a module. -/
  | moduleDecl
  /-- An import statement. -/
  | importDecl
  /-- The type of a name. -/
  | signature
  /-- The declaration of a type or of a type alias. -/
  | typeDecl
  /-- The head of a definition, which ends its line with an equals sign. -/
  | head
  /-- A definition: its head and its body. -/
  | binding
  /-- Local definitions and an expression. -/
  | letIn
  /-- A condition with two branches. -/
  | ifThenElse
  /-- The first line of a case expression. -/
  | caseHead
  /-- A pattern and its arrow, which ends its line. -/
  | pattern
  /-- A pattern with its body. -/
  | arm
  /-- A case expression with its arms. -/
  | caseOf
  /-- Parentheses around a whole expression. -/
  | tuple
  /-- A whole expression of tokens and parenthesised groups. -/
  | call
  /-- Everything that is left, as it is. -/
  | unparsed
  /-- An expression. -/
  | expr
  /-- A statement at the top level, or what means nothing there. -/
  | topLevelItem
  /-- The run of lines that no other rule understood. -/
  | statement
deriving DecidableEq

end Offside
