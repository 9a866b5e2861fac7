import Offside.Parser.Combinators

/-!
# The grammar

What each rule matches and which node it makes. An expression is parsed as a text of its own: whoever delimited it
decided its extent, so the rules for expressions may take it that they see all of it.
-/

namespace Offside

namespace Grammar

open Offside.Parser

/-! ## Noise -/

/-- Two dashes and the rest of the line. -/
def lineComment : Parser Unit :=
  named "LineComment" ((keyword "--").andThen line)

/-- A documentation comment, up to the first closing mark. -/
def docComment : Parser Unit :=
  named "DocComment" (chain [keyword "\x7b-|", scan (.untilIncluding "-\x7d".toList)])

/-- A block comment, up to the first closing mark: comments do not nest. -/
def blockComment : Parser Unit :=
  named "BlockComment"
    (chain [keyword "\x7b-", scan (.untilLiteral "-\x7d".toList), keyword "-\x7d"])

/-- A comment of any kind. -/
def comment : Parser Unit :=
  oneOf [docComment, blockComment, lineComment]

/-- The lines of a type signature: a name, a colon and a type, and the lines nested under them. -/
def signatureExtent : Parser Unit :=
  named "AnnotationExtent"
    ((chain [scan .lineStart, token, spaceOptional, keyword ":", spaceRequired, line]).onlyIf (extent .block))

/-- What may surround an expression without meaning anything. -/
def noise : Parser Unit :=
  oneOf [spaceRequired, comment, keywordBlock "module", keywordBlock "import", signatureExtent]

/-- All noise that comes next, if any. -/
def skipNoise : Parser Unit :=
  named "Noise" (map (fun _ => ()) (many noise))

/-! ## Module header, imports, types -/

/-- A module header. An item that it exposes is a token, or a token and two dots in parentheses. -/
def moduleDecl : Parser Node :=
  let item := grab (token.andThen (map (fun _ => ()) (optional (keyword "(..)"))))
  let separator := chain [spaceOptional, keyword ",", spaceOptional]
  named "Module" <| assemble .moduleDecl <| sequence [
    skip (keyword "module"),
    skip spaceRequired,
    grab token,
    skip spaceRequired,
    skip (keyword "exposing"),
    skip spaceOptional,
    skip (keyword "("),
    skip spaceOptional,
    map Node.list (item.separatedBy separator),
    skip spaceOptional,
    skip (keyword ")")]

/-- An import with the lines nested under it. -/
def importDecl : Parser Node :=
  named "Import" <| assemble .importDecl <| twoPass (keywordBlock "import") <|
    sequence [skip (keyword "import"), skip spaceRequired, grab token, grab untilEnd]

/-- A type signature. -/
def signature : Parser Node :=
  named "Annotation" <| assemble .signature <| twoPass signatureExtent (grab untilEnd)

/-- A type declaration: the rest of its first line is the head, the lines nested under it are the body. -/
def typeDecl : Parser Node :=
  named "TypeDecl" <| assemble .typeDecl <| twoPass (keywordBlock "type") <|
    sequence [skip (keyword "type"), skip spaceOptional, grab line, skip spaceOptional, grab untilEnd]

/-! ## References to rules -/

/-- An expression that is part of another. -/
def nestedExpr : Parser Node :=
  ofRule "Expr" .expr

/-! ## Definitions -/

/-- The head of a definition, which must end its line with an equals sign; with what comes between it and the body. -/
def head : Parser Node :=
  let param := sequence [grab (oneOf [token, parenGroup]), skip spaceOptional]
  let whole := sequence [grab token, skip spaceOptional, zeroOrMore param]
  named "Def" <| sequence [
    assemble .head (twoPass (scan (.untilLineEndsWith "=".toList)) whole),
    skip (keyword "="),
    skip line,
    skip spaceOptional]

/-- A definition: its body is the lines at the level of the first. -/
def binding : Parser Node :=
  named "Binding" <| assemble .binding <|
    sequence [head, skip spaceOptional, indented nestedExpr, skip spaceOptional]

/-- Local definitions and the expression that uses them. After the first keyword the definitions must be there. -/
def letIn : Parser Node :=
  let bindings := expect "let bindings" (oneOrMore (sequence [skip skipNoise, binding]))
  named "Let" <| assemble .letIn <| sequence [subBlock "let" bindings, subBlock "in" nestedExpr]

/-! ## Conditions and cases -/

/-- A condition and two branches; the second branch may be another condition on the same line. -/
def ifThenElse : Parser Node :=
  let elseIf := sequence [skip spaceOptional, skip (keyword "else"), skip spaceRequired, ofRule "If" .ifThenElse]
  named "If" <| assemble .ifThenElse <| sequence [
    skip (keyword "if"),
    skip spaceRequired,
    twoPass (scan (.untilKeyword "then".toList)) nestedExpr,
    skip (keyword "then"),
    twoPass (scan (.untilBalanced "if".toList "else".toList)) nestedExpr,
    oneOf [elseIf, subBlock "else" nestedExpr]]

/-- What comes before a word that ends the line, and the rest of that line. -/
def upToLineEnding (word : String) (content : Parser Node) : Parser Node :=
  sequence [twoPass (scan (.untilLineEndsWith word.toList)) content, skip (keyword word), skip line]

/-- The first line of a case expression. -/
def caseHead : Parser Node :=
  named "CaseOf" <| assemble .caseHead <|
    sequence [skip (keyword "case"), upToLineEnding "of" (grab untilEnd)]

/-- A pattern, up to the arrow that ends its line. -/
def pattern : Parser Node :=
  named "PatternDef" <| assemble .pattern <| upToLineEnding "->" (grab untilEnd)

/-- A pattern with its body. -/
def arm : Parser Node :=
  named "OneCase" <| assemble .arm <|
    sequence [skip skipNoise, pattern, skip spaceOptional, indented nestedExpr]

/-- A case expression: its arms are the lines at the level of the first. -/
def caseOf : Parser Node :=
  named "Case" <| assemble .caseOf <| sequence [caseHead, skip spaceOptional, indented (oneOrMore arm)]

/-! ## Simple expressions -/

/-- Parentheses around the whole expression. -/
def tuple : Parser Node :=
  named "Tuple" <| assemble .tuple <| sequence [
    skip (keyword "("),
    grab (scan (.untilChar ')')),
    skip (keyword ")"),
    skip spaceOptional,
    skip (scan .eof)]

/-- Tokens and parenthesised groups that make up the whole expression. -/
def call : Parser Node :=
  let argument := sequence [skip spaceOptional, grab (oneOf [token, parenGroup])]
  named "Call" <| assemble .call <| sequence [oneOrMore argument, skip spaceOptional, skip (scan .eof)]

/-- Everything that is left, as it is. -/
def unparsed : Parser Node :=
  named "UnParsed" <| assemble .unparsed <| grab untilEnd

/-! ## Entry points -/

/-- An expression, after noise. -/
def expr : Parser Node :=
  named "Expr" <| sequence [skip skipNoise, oneOf [letIn, ifThenElse, caseOf, tuple, call, unparsed]]

/-- A statement at the top level, or blanks, comments and headers, which have no meaning there. -/
def topLevelItem : Parser Node :=
  named "TopLevelItem" <| oneOf [
    skip (oneOf [spaceRequired, comment]),
    moduleDecl,
    skip (keywordBlock "module"),
    importDecl,
    signature,
    typeDecl,
    binding]

/-- A statement that no rule understood: its line and the lines nested under it, or only the rest of the line where it
does not start one. -/
def statement : Parser Node :=
  assemble .unparsed <| named "Statement" <| choose .atLineStart (grab (extent .block)) (grab line)

end Grammar

/-- What a rule stands for. -/
def Rule.body : Rule → Parser Node
  | moduleDecl => Grammar.moduleDecl
  | importDecl => Grammar.importDecl
  | signature => Grammar.signature
  | typeDecl => Grammar.typeDecl
  | head => Grammar.head
  | binding => Grammar.binding
  | letIn => Grammar.letIn
  | ifThenElse => Grammar.ifThenElse
  | caseHead => Grammar.caseHead
  | pattern => Grammar.pattern
  | arm => Grammar.arm
  | caseOf => Grammar.caseOf
  | tuple => Grammar.tuple
  | call => Grammar.call
  | unparsed => Grammar.unparsed
  | expr => Grammar.expr
  | topLevelItem => Grammar.topLevelItem
  | statement => Grammar.statement

end Offside
