import Offside.Layout.Extent
import Offside.Rule
import Offside.Scanner

/-!
# Parsers

A parser is a description of what to match and what to make of it; running one is the business of
`Offside.Parser.Run`. The description is a closed inductive type, so a law about all parsers goes by induction on it.
Every parser has a name that tells how it is built.
-/

namespace Offside

/-- A question about a place that decides between two parsers. -/
inductive Test where
  /-- Do only blanks come before on the line? -/
  | atLineStart
  /-- Is the rest of the line empty, up to blanks and a line comment? -/
  | bareLine
  /-- Does a literal come next? -/
  | ahead (literal : Text)
deriving DecidableEq

/-- Whether the answer at a cursor is yes. -/
def Test.holds (test : Test) (c : Cursor) : Bool :=
  match test with
  | atLineStart => c.atLineStart
  | bareLine => c.restOfLine.trim.isEmpty || "--".toList.isPrefixOf c.restOfLine.trim
  | ahead literal => c.peek literal

/-- A description of what to match, and of the value that a match produces. -/
inductive Parser : Type → Type 1 where
  /-- Matches as a scanner does. -/
  | scan (scanner : Scanner) : Parser Unit
  /-- Matches the run of lines that an extent delimits. -/
  | extent (extent : Extent) : Parser Unit
  /-- Matches nothing and produces a value. -/
  | ret {α : Type} (value : α) : Parser α
  /-- Never matches. -/
  | fail {α : Type} : Parser α
  /-- Refers to a rule of the grammar, under a name of its own. -/
  | ofRule (name : String) (rule : Rule) : Parser Node
  /-- The same parser under another name. -/
  | named {α : Type} (name : String) (p : Parser α) : Parser α
  /-- Applies a function to the value. -/
  | map {α β : Type} (f : α → β) (p : Parser α) : Parser β
  /-- Applies a function that may refuse the value, which aborts the parse. -/
  | transform {α β : Type} (f : α → Except Fault β) (p : Parser α) : Parser β
  /-- The first parser, then the second from where the first stopped. -/
  | seq {α β γ : Type} (combine : α → β → γ) (p : Parser α) (q : Parser β) : Parser γ
  /-- The first parser, or else the second from the same place. -/
  | or {α : Type} (p q : Parser α) : Parser α
  /-- The first parser where a test holds, the second elsewhere. -/
  | choose {α : Type} (test : Test) (p q : Parser α) : Parser α
  /-- Matches in any case; the value tells whether the parser did. -/
  | optional {α : Type} (p : Parser α) : Parser (Option α)
  /-- As many matches in a row as there are, each of which gets ahead. -/
  | many {α : Type} (p : Parser α) : Parser (List α)
  /-- Matches only if the value passes a test. -/
  | filter {α : Type} (keep : α → Bool) (p : Parser α) : Parser α
  /-- Matches in the same way without moving. -/
  | lookahead {α : Type} (p : Parser α) : Parser α
  /-- Aborts the parse where the parser does not match. -/
  | expect {α : Type} (what : String) (p : Parser α) : Parser α
  /-- Produces the text that the match went over. -/
  | grab (p : Parser Unit) : Parser Node
  /-- Runs the second parser on the text that the first went over, as a text of its own, and stops where the first did. -/
  | twoPass {α : Type} (delimiter : Parser Unit) (content : Parser α) : Parser α
  /-- Runs the parser on the lines at the cursor's level, as a text of its own with its indentation. -/
  | indented {α : Type} (content : Parser α) : Parser α

namespace Parser

/-- The name of a parser: how it is built, or the name that it was given. -/
def name {α : Type} : Parser α → String
  | scan s => s.name
  | extent e => e.name
  | ret _ => "Ret"
  | fail => "Fail"
  | ofRule n _ => "Lazy(" ++ n ++ ")"
  | named n _ => n
  | map _ p => "Map(" ++ p.name ++ ")"
  | transform _ p => "Transform(" ++ p.name ++ ")"
  | seq _ p q => p.name ++ " > " ++ q.name
  | or p q => "Or(" ++ p.name ++ " | " ++ q.name ++ ")"
  | choose _ p q => "Choose(" ++ p.name ++ " | " ++ q.name ++ ")"
  | optional p => "Optional(" ++ p.name ++ ")"
  | many p => "Repeat(" ++ p.name ++ ")"
  | filter _ p => "Filter(" ++ p.name ++ ")"
  | lookahead p => "Lookahead(" ++ p.name ++ ")"
  | expect _ p => "Expect(" ++ p.name ++ ")"
  | grab p => "Grab(" ++ p.name ++ ")"
  | twoPass delimiter content => "TwoPass(" ++ delimiter.name ++ ", " ++ content.name ++ ")"
  | indented content => "Indented(" ++ content.name ++ ")"

/-- The description of a parser: its name, quoted. -/
def describe {α : Type} (p : Parser α) : String :=
  "Parser \x7b name: " ++ String.ofList (quoted p.name.toList) ++ " \x7d"

end Parser

end Offside
