import Offside.Node.Basic
import Offside.Proofs.Cursor.Order

/-!
# Well-formed nodes

What the tree of a document is made of: items at the top level, and below them expressions at every depth, down to texts
that are tokens, groups in parentheses, or trimmed. No raw capture is left in it, and no list that must have members is
empty.
-/

namespace Offside

/-! ## Texts -/

namespace Text

/-- There is no blank at either end. -/
structure Trimmed (t : Text) : Prop where
  /-- The first character is visible. -/
  head : t.head?.all (!isBlank ·)
  /-- The last character is visible. -/
  last : t.getLast?.all (!isBlank ·)

/-- There is no blank at either end, and no newline. -/
structure Phrase (t : Text) : Prop extends t.Trimmed where
  /-- It is one line. -/
  oneLine : '\n' ∉ t

/-- One token character or more, and nothing else. -/
structure Token (t : Text) : Prop where
  /-- There is a character. -/
  ne_nil : t ≠ []
  /-- They can be part of a token. -/
  all : ∀ ch ∈ t, isTokenChar ch

/-- Parentheses around a text without a closing one. -/
def Group (t : Text) : Prop :=
  ∃ inner : Text, t = '(' :: (inner ++ [')']) ∧ ')' ∉ inner

/-- A token, or a group in parentheses. -/
def Argument (t : Text) : Prop :=
  t.Token ∨ t.Group

/-- A token, or a token and two dots in parentheses. -/
def Exposed (t : Text) : Prop :=
  t.Token ∨ ∃ name : Text, name.Token ∧ t = name ++ "(..)".toList

/-- What is trimmed has no blank at its ends. -/
theorem trimmed_trim (t : Text) : t.trim.Trimmed := by
  have hend : t.trim.getLast?.all (!isBlank ·) := by
    rw [trim, trimEnd, List.getLast?_reverse]
    exact Cursor.next?_skipWhile ⟨[], (t.dropWhile isBlank).reverse⟩ isBlank
  refine ⟨?_, hend⟩
  have hhead : (t.dropWhile isBlank).head?.all (!isBlank ·) := Cursor.next?_skipWhile ⟨[], t⟩ isBlank
  obtain ⟨blanks, heq⟩ := trimEnd_isPrefix (t.dropWhile isBlank)
  rw [trim]
  cases hfirst : trimEnd (t.dropWhile isBlank) with
  | nil => rfl
  | cons ch rest =>
    rw [← heq, hfirst] at hhead
    simpa using hhead

/-- Without a blank at its ends a text is not trimmed. -/
theorem Trimmed.trim_eq_self {t : Text} (h : t.Trimmed) : t.trim = t := by
  rw [trim, (Cursor.takeWhile_of_head? h.head).2, trimEnd_eq_self h.last]

theorem mem_of_mem_trim {t : Text} {ch : Char} (h : ch ∈ t.trim) : ch ∈ t :=
  (List.dropWhile_sublist isBlank).subset ((trimEnd_isPrefix _).subset h)

/-- What is trimmed from one line is one line. -/
theorem phrase_trim {t : Text} (h : '\n' ∉ t) : t.trim.Phrase :=
  ⟨trimmed_trim t, fun hmem => h (mem_of_mem_trim hmem)⟩

end Text

/-! ## Nodes -/

/-- The head of a definition: the name is a token, and each parameter is a token or a group. -/
structure Head.WellFormed (h : Head) : Prop where
  /-- The name. -/
  name : h.name.Token
  /-- The parameters. -/
  params : ∀ p ∈ h.params, p.Argument

namespace Node

/-- A node that stands for an expression, with expressions at every depth below it. -/
inductive IsExpression : Node → Prop where
  /-- Local definitions, of which there are some, and an expression. -/
  | letIn {bindings : List Binding} {body : Node} (hne : bindings ≠ []) (hheads : ∀ b ∈ bindings, b.head.WellFormed)
    (hbodies : ∀ b ∈ bindings, IsExpression b.body) (hbody : IsExpression body) : IsExpression (.letIn bindings body)
  /-- A condition and two branches, all of them expressions. -/
  | ifThenElse {condition yes no : Node} (hcondition : IsExpression condition) (hyes : IsExpression yes)
    (hno : IsExpression no) : IsExpression (.ifThenElse condition yes no)
  /-- A subject in one line and arms, of which there are some. -/
  | caseOf {subject : Text} {arms : List Arm} (hsubject : subject.Phrase) (hne : arms ≠ [])
    (hpatterns : ∀ a ∈ arms, a.pattern.Phrase) (hbodies : ∀ a ∈ arms, IsExpression a.body) :
    IsExpression (.caseOf subject arms)
  /-- Parentheses around a trimmed text. -/
  | tuple {t : Text} (htrimmed : t.Trimmed) : IsExpression (.tuple t)
  /-- Tokens and groups, of which there are some. -/
  | call {tokens : List Text} (hne : tokens ≠ []) (htokens : ∀ t ∈ tokens, t.Argument) : IsExpression (.call tokens)
  /-- A trimmed text. -/
  | unparsed {t : Text} (htrimmed : t.Trimmed) : IsExpression (.unparsed t)

/-- A node that stands for a statement at the top level, with expressions below it. -/
inductive IsItem : Node → Prop where
  /-- A module header, which exposes something. -/
  | moduleDecl {name : Text} {exposing : List Text} (hne : exposing ≠ []) : IsItem (.moduleDecl name exposing)
  /-- An import with a trimmed clause. -/
  | importDecl {name clause : Text} (hclause : clause.Trimmed) : IsItem (.importDecl name clause)
  /-- A type declaration with a head in one line. -/
  | typeDecl {first body : Text} (hfirst : first.Phrase) : IsItem (.typeDecl first body)
  /-- A trimmed type signature. -/
  | signature {t : Text} (htrimmed : t.Trimmed) : IsItem (.signature t)
  /-- A definition, whose body is an expression. -/
  | binding {b : Binding} (hhead : b.head.WellFormed) (hbody : b.body.IsExpression) : IsItem (.binding b)

/-- An expression has a meaning. -/
theorem IsExpression.isIgnore {v : Node} (h : v.IsExpression) : v.isIgnore = false := by
  cases h <;> rfl

end Node

end Offside
