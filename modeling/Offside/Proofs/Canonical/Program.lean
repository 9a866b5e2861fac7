import Offside.Cursor.Word
import Offside.Node.Basic

/-!
# Canonically laid out programs

A program is a list of definitions whose bodies are calls, conditions, local definitions and cases over plain names. It is
laid out as lines: every part of an expression starts a line of its own, and what is nested is four columns further in.
-/

namespace Offside

namespace Canonical

/-! ## Programs -/

/-- The words that mean something by themselves where a line begins or ends. -/
def reserved : List Text :=
  ["if", "then", "else", "let", "in", "case", "of", "module", "import", "type"].map String.toList

/-- A name: letters, digits and `_`, other than a reserved word. -/
structure Ident where
  /-- The characters of the name. -/
  name : Text
  /-- There are some. -/
  name_ne_nil : name ≠ []
  /-- They are letters, digits and `_`. -/
  all_isWordChar : name.all isWordChar
  /-- They do not make up a reserved word. -/
  not_reserved : name ∉ reserved

/-- One name or more. -/
structure Names where
  /-- The first name. -/
  first : Ident
  /-- The others. -/
  more : List Ident

/-- The names as texts. -/
def Names.texts (names : Names) : List Text :=
  (names.first :: names.more).map Ident.name

/-- The names with a blank between every two. -/
def Names.text (names : Names) : Text :=
  [' '].intercalate names.texts

mutual

/-- An expression. -/
inductive Expr where
  /-- A function and its arguments, or a single name. -/
  | call (names : Names)
  /-- A condition, which is a call, and two branches. -/
  | ifThenElse (condition : Names) (yes no : Expr)
  /-- Local definitions, of which there is at least one, and the expression that uses them. -/
  | letIn (first : Definition) (more : List Definition) (body : Expr)
  /-- A case expression with at least one arm. -/
  | caseOf (subject : Names) (first : Branch) (more : List Branch)

/-- A definition: its name, its parameters and its body. -/
structure Definition where
  /-- The name defined. -/
  name : Ident
  /-- The parameters. -/
  params : List Ident
  /-- The right-hand side. -/
  body : Expr

/-- An arm of a case expression: a pattern and the expression it selects. -/
structure Branch where
  /-- The pattern. -/
  pattern : Names
  /-- The expression. -/
  body : Expr

end

/-! ## Their nodes -/

mutual

/-- The node of an expression. -/
def Expr.node : Expr → Node
  | .call names => .call names.texts
  | .ifThenElse condition yes no => .ifThenElse (.call condition.texts) yes.node no.node
  | .letIn first more body => .letIn (first.binding :: Definition.bindings more) body.node
  | .caseOf subject first more => .caseOf subject.text (first.arm :: Branch.arms more)

/-- The binding of a definition. -/
def Definition.binding : Definition → Binding
  | ⟨name, params, body⟩ => ⟨⟨name.name, params.map Ident.name⟩, body.node⟩

/-- The bindings of definitions, in order. -/
def Definition.bindings : List Definition → List Binding
  | [] => []
  | d :: ds => d.binding :: Definition.bindings ds

/-- The arm of a branch. -/
def Branch.arm : Branch → Arm
  | ⟨pattern, body⟩ => ⟨pattern.text, body.node⟩

/-- The arms of branches, in order. -/
def Branch.arms : List Branch → List Arm
  | [] => []
  | b :: bs => b.arm :: Branch.arms bs

end

/-! ## Their lines -/

/-- A line: how far it is indented, and its words. -/
structure Line where
  /-- The number of blanks before the first word. -/
  indent : Nat
  /-- The words, which a single blank separates. -/
  words : List Text

/-- The text of a line, with its newline. -/
def Line.text (l : Line) : Text :=
  List.replicate l.indent ' ' ++ [' '].intercalate l.words ++ ['\n']

/-- The text of lines in order. -/
def textOf (lines : List Line) : Text :=
  lines.flatMap Line.text

mutual

/-- The lines of an expression at an indentation. -/
def Expr.lines (n : Nat) : Expr → List Line
  | .call names => [⟨n, names.texts⟩]
  | .ifThenElse condition yes no =>
    ⟨n, "if".toList :: condition.texts ++ ["then".toList]⟩ ::
      (yes.lines (n + 4) ++ ⟨n, ["else".toList]⟩ :: no.lines (n + 4))
  | .letIn first more body =>
    ⟨n, ["let".toList]⟩ ::
      (first.lines (n + 4) ++ Definition.allLines (n + 4) more ++ ⟨n, ["in".toList]⟩ :: body.lines (n + 4))
  | .caseOf subject first more =>
    ⟨n, "case".toList :: subject.texts ++ ["of".toList]⟩ :: (first.lines (n + 4) ++ Branch.allLines (n + 4) more)

/-- The lines of a definition at an indentation. -/
def Definition.lines (n : Nat) : Definition → List Line
  | ⟨name, params, body⟩ => ⟨n, name.name :: params.map Ident.name ++ ["=".toList]⟩ :: body.lines (n + 4)

/-- The lines of definitions in order. -/
def Definition.allLines (n : Nat) : List Definition → List Line
  | [] => []
  | d :: ds => d.lines n ++ Definition.allLines n ds

/-- The lines of a branch at an indentation. -/
def Branch.lines (n : Nat) : Branch → List Line
  | ⟨pattern, body⟩ => ⟨n, pattern.texts ++ ["->".toList]⟩ :: body.lines (n + 4)

/-- The lines of branches in order. -/
def Branch.allLines (n : Nat) : List Branch → List Line
  | [] => []
  | b :: bs => b.lines n ++ Branch.allLines n bs

end

/-- The text of a program. -/
def render (program : List Definition) : Text :=
  textOf (Definition.allLines 0 program)

/-! ## How deeply they are nested -/

mutual

/-- How deeply expressions are nested in an expression, itself included. -/
def Expr.height : Expr → Nat
  | .call _ => 1
  | .ifThenElse _ yes no => max yes.height no.height + 1
  | .letIn first more body => max (max first.height (Definition.maxHeight more)) body.height + 1
  | .caseOf _ first more => max first.height (Branch.maxHeight more) + 1

/-- How deeply expressions are nested in a definition. -/
def Definition.height : Definition → Nat
  | ⟨_, _, body⟩ => body.height

/-- How deeply expressions are nested in definitions. -/
def Definition.maxHeight : List Definition → Nat
  | [] => 0
  | d :: ds => max d.height (Definition.maxHeight ds)

/-- How deeply expressions are nested in a branch. -/
def Branch.height : Branch → Nat
  | ⟨_, body⟩ => body.height

/-- How deeply expressions are nested in branches. -/
def Branch.maxHeight : List Branch → Nat
  | [] => 0
  | b :: bs => max b.height (Branch.maxHeight bs)

end

end Canonical

end Offside
