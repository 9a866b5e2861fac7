import Offside.Form.Assemble
import Offside.Parser.Basic

/-!
# Building parsers

The vocabulary in which the grammar is written. Each entry is a description built from the constructors of `Parser`,
under the name that it has in the names of larger parsers.
-/

namespace Offside

namespace Parser

variable {α β : Type}

/-! ## Scanners -/

/-- The given word, with blanks or the ends of the text around it where it ends in a letter, a digit or `_`. -/
def keyword (word : String) : Parser Unit :=
  scan (.keyword word.toList)

/-- All blanks that come next, if any. -/
def spaceOptional : Parser Unit :=
  scan .spaceOptional

/-- All blanks that come next, at least one. -/
def spaceRequired : Parser Unit :=
  scan .spaceRequired

/-- To the end of the line. -/
def line : Parser Unit :=
  scan .line

/-- All that is left. -/
def untilEnd : Parser Unit :=
  scan .untilEnd

/-- All token characters that come next, at least one. -/
def token : Parser Unit :=
  scan .token

/-! ## Sequences and choices -/

/-- One parser after the other; the value is that of the second. -/
def andThen (p : Parser α) (q : Parser β) : Parser β :=
  seq (fun _ value => value) p q

/-- The second parser, but only where the first matches. -/
def onlyIf (p : Parser α) (q : Parser β) : Parser β :=
  p.lookahead.andThen q

/-- Scanners one after the other. -/
def chain : List (Parser Unit) → Parser Unit
  | [] => ret ()
  | [p] => p
  | p :: ps => p.andThen (chain ps)

/-- Parsers one after the other; the value lists theirs. -/
def gather : List (Parser α) → Parser (List α)
  | [] => ret []
  | p :: ps => seq List.cons p (gather ps)

/-- Parsers one after the other; the value is their collapsed captures. -/
def sequence (steps : List (Parser Node)) : Parser Node :=
  named ("Seq(" ++ ", ".intercalate (steps.map name) ++ ")") (map Node.collapse (gather steps))

/-- The first of the parsers that matches. -/
def firstOf : List (Parser α) → Parser α
  | [] => fail
  | p :: ps => p.or (firstOf ps)

/-- The first of the alternatives that matches; their order is their priority. -/
def oneOf (alternatives : List (Parser α)) : Parser α :=
  named ("OneOf(" ++ " | ".intercalate (alternatives.map name) ++ ")") (firstOf alternatives)

/-! ## Repetitions -/

/-- One match or more in a row. -/
def many1 (p : Parser α) : Parser (List α) :=
  named ("Repeat1(" ++ p.name ++ ")") (filter (!·.isEmpty) (many p))

/-- Matches in a row up to where a literal comes next. -/
def manyUntil (p : Parser α) (stop : Text) : Parser (List α) :=
  named ("RepeatUntil(" ++ p.name ++ ", " ++ String.ofList stop ++ ")") (many (choose (.ahead stop) fail p))

/-- One item or more, with a separator between every two. -/
def separatedBy (p : Parser α) (separator : Parser Unit) : Parser (List α) :=
  named ("SeparatedBy(" ++ p.name ++ ", " ++ separator.name ++ ")") (seq List.cons p (many (separator.andThen p)))

/-! ## Captures -/

/-- Matches as a scanner does, for a value without a meaning. -/
def skip (p : Parser Unit) : Parser Node :=
  named ("Skip(" ++ p.name ++ ")") (map (fun _ => Node.ignore) p)

/-- A list of captures, one for each match in a row. -/
def zeroOrMore (p : Parser Node) : Parser Node :=
  map Node.listOf (many p)

/-- A list of captures, one for each match in a row, of which there is at least one. -/
def oneOrMore (p : Parser Node) : Parser Node :=
  map Node.listOf (many1 p)

/-- Assembles the captures into a node of the given form. -/
def assemble (form : Form) (p : Parser Node) : Parser Node :=
  transform form.assemble p

/-! ## Groups and blocks -/

/-- A parenthesis, anything up to the first closing parenthesis, and that. Groups do not nest. -/
def parenGroup : Parser Unit :=
  named "ParenGroup" (chain [keyword "(", scan (.untilChar ')'), keyword ")"])

/-- A keyword and the body that belongs to it, parsed as a text of its own. A body that starts on the keyword's line is
the rest of that line and the lines nested under it; else it is the next visible line and the lines at least as far in. -/
def subBlock (word : String) (content : Parser α) : Parser α :=
  named ("SubBlock(" ++ word ++ ", " ++ content.name ++ ")")
    ((spaceOptional.andThen (keyword word)).andThen
      (choose .bareLine
        ((line.andThen spaceOptional).andThen (indented content))
        (twoPass (extent .restOfBlock) content)))

/-- A keyword at the start of its line, with the whole line and the lines nested under it. -/
def keywordBlock (word : String) : Parser Unit :=
  named ("KeywordBlock(" ++ word ++ ")")
    ((chain [scan .lineStart, keyword word]).onlyIf (extent .block))

end Parser

end Offside
