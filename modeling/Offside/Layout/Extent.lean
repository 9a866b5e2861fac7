import Offside.Layout.Indent

/-!
# Extents

Which of the following lines belong to the line at the cursor is decided by their indentation against a reference line:
the offside rule. An extent is one of three such rules.
-/

namespace Offside

/-- A rule that delimits a run of lines. -/
inductive Extent where
  /-- The cursor's line and the lines indented further than it: a nested block. -/
  | block
  /-- The cursor's line and the lines indented at least as far: a statement over several lines. -/
  | level
  /-- From the cursor, wherever it is on its line, to the end of the line, and the lines indented further than it. -/
  | restOfBlock
deriving DecidableEq

/-- The name of an extent in the names of parsers. -/
def Extent.name : Extent → String
  | block => "Block"
  | level => "MyLevel"
  | restOfBlock => "RestOfBlock"

namespace Cursor

/-- From the first visible character of a line, past all lines in a row whose indentation passes a test. -/
def skipLines (keep : Nat → Bool) (c : Cursor) : Except Fault Cursor :=
  if c.isDone then .ok c
  else match _h : c.indentLevel with
    | .error fault => .error fault
    | .ok level => if keep level then skipLines keep c.nextLine else .ok c
termination_by c.rest.length
decreasing_by exact length_rest_nextLine_lt _h

/-- Past the cursor's line, and past the lines in a row whose indentation passes a test against that of the cursor's
line. Nothing is passed at the end of the text. -/
def skipBlock (keep : Nat → Nat → Bool) (c : Cursor) : Except Fault Cursor :=
  if c.isDone then .ok c
  else c.indentLevel.bind fun level => c.nextLine.skipLines (keep level)

/-- Where the extent that starts at the cursor stops. -/
def extentStop (c : Cursor) : Extent → Except Fault Cursor
  | .block => c.skipBlock fun reference line => reference < line
  | .level => c.skipBlock fun reference line => reference ≤ line
  | .restOfBlock =>
    let lineStart := c.toLineStart
    if lineStart.restOfLine.all isBlank then .ok (c.skipWhile (· != '\n'))
    else (lineStart.skipWhile isBlank).indentLevel.bind fun reference =>
      c.nextLine.skipLines fun line => reference < line

end Cursor

end Offside
