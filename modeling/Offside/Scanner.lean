import Offside.Cursor.Word

/-!
# Scanners

A scanner decides how far a match reaches from a cursor, without looking at the layout. `reach?` gives the number of
characters that a match goes over.
-/

namespace Offside

/-- A primitive rule on the text at a cursor. -/
inductive Scanner where
  /-- All blanks that come next, if any. -/
  | spaceOptional
  /-- All blanks that come next, at least one. -/
  | spaceRequired
  /-- The given word, with the boundaries that `Cursor.matchesWord` asks for. -/
  | keyword (word : Text)
  /-- Up to the next occurrence of a literal. -/
  | untilLiteral (literal : Text)
  /-- Up to the next occurrence of a word on its own. -/
  | untilKeyword (word : Text)
  /-- Up to the next closing term that does not pair with an opening term after the cursor. -/
  | untilBalanced (opener closer : Text)
  /-- Up to the next occurrence of a character. -/
  | untilChar (c : Char)
  /-- Past the next occurrence of a literal. -/
  | untilIncluding (literal : Text)
  /-- Up to a word that ends the line, after a blank or at once; blanks may follow the word. -/
  | untilLineEndsWith (word : Text)
  /-- To the end of the line, not past its newline. -/
  | line
  /-- All that is left. -/
  | untilEnd
  /-- Nothing, where only blanks come before the cursor on its line. -/
  | lineStart
  /-- Nothing, at the end of the text. -/
  | eof
  /-- All token characters that come next, at least one. -/
  | token
deriving DecidableEq

/-- Whether a character can be part of a token. -/
def isTokenChar (c : Char) : Bool :=
  !isBlank c && !"()[]=,".toList.contains c

/-- The number of characters, counted from a cursor, to the first place before the end where a test holds. -/
def firstPlace? (test : Cursor → Bool) (past : Text) : Text → Option Nat
  | [] => none
  | c :: rest =>
    if test ⟨past, c :: rest⟩ then some 0 else (firstPlace? test (c :: past) rest).map (· + 1)

/-- The number of characters to the first closing term when so many opening terms still wait for theirs. -/
def closingPlace? (opener closer past : Text) (depth : Nat) : Text → Option Nat
  | [] => none
  | c :: rest =>
    let here : Cursor := ⟨past, c :: rest⟩
    if here.matchesTerm opener then (closingPlace? opener closer (c :: past) (depth + 1) rest).map (· + 1)
    else if here.matchesTerm closer then
      match depth with
      | 0 => some 0
      | depth + 1 => (closingPlace? opener closer (c :: past) depth rest).map (· + 1)
    else (closingPlace? opener closer (c :: past) depth rest).map (· + 1)

/-- A length that is not zero. -/
def positive? (n : Nat) : Option Nat :=
  if n = 0 then none else some n

namespace Scanner

/-- The name of a scanner in the names of parsers. -/
def name : Scanner → String
  | spaceOptional => "SpaceOptional"
  | spaceRequired => "SpaceRequired"
  | keyword word => "Keyword(" ++ String.ofList word ++ ")"
  | untilLiteral literal => "UntilLiteral(" ++ String.ofList literal ++ ")"
  | untilKeyword word => "UntilKeyword(" ++ String.ofList word ++ ")"
  | untilBalanced opener closer =>
    "UntilBalanced(" ++ String.ofList opener ++ ", " ++ String.ofList closer ++ ")"
  | untilChar c => "UntilChar(" ++ String.ofList (quotedChar c) ++ ")"
  | untilIncluding literal => "UntilIncluding(" ++ String.ofList literal ++ ")"
  | untilLineEndsWith word => "UntilLineEndsWith(" ++ String.ofList word ++ ")"
  | line => "Line"
  | untilEnd => "UntilEnd"
  | lineStart => "LineStart"
  | eof => "Eof"
  | token => "Token"

/-- The number of characters that a match at the cursor goes over, if there is a match. -/
def reach? (scanner : Scanner) (c : Cursor) : Option Nat :=
  match scanner with
  | spaceOptional => some (c.rest.takeWhile isBlank).length
  | spaceRequired => positive? (c.rest.takeWhile isBlank).length
  | keyword word => if c.matchesWord word then some word.length else none
  | untilLiteral literal => c.rest.indexOf? literal
  | untilKeyword word => firstPlace? (·.matchesWord word) c.past c.rest
  | untilBalanced opener closer => closingPlace? opener closer c.past 0 c.rest
  | untilChar ch => c.rest.indexOf? [ch]
  | untilIncluding literal => (c.rest.indexOf? literal).map (· + literal.length)
  | untilLineEndsWith word =>
    match c.restOfLine.trimEnd.stripSuffix? word with
    | some before => if before.getLast?.all isBlank then some before.length else none
    | none => none
  | line => some c.restOfLine.length
  | untilEnd => some c.rest.length
  | lineStart => if c.atLineStart then some 0 else none
  | eof => if c.isDone then some 0 else none
  | token => positive? (c.rest.takeWhile isTokenChar).length

end Scanner

end Offside
