import Offside.Form.Basic
import Offside.Node.Describe
import Offside.Node.Equality

/-!
# Faults

What aborts a whole parse. A rule that does not match is no fault: another rule is tried instead.
-/

namespace Offside

/-- How much of the remaining text a fault shows. -/
def reportWidth : Nat := 50

/-- A reason to abort a parse. -/
inductive Fault where
  /-- The indentation was asked for at a blank or at the end of the text. -/
  | probedBlank (offset : Nat)
  /-- The indentation was asked for where something comes before on the line; the nearest such character is shown. -/
  | probedMidLine (offset : Nat) (found : Char)
  /-- The input had committed to something that is not there. -/
  | expected (what : String) (offset : Nat) (found : Text)
  /-- The captures do not have the shape that the form is assembled from. -/
  | shape (form : Form) (captured : Node)
  /-- A parse that had to reach the end of the text stopped before. -/
  | incomplete (line column : Nat) (window : Text)
deriving DecidableEq

/-- The fault in words. -/
def Fault.message : Fault → String
  | probedBlank offset =>
    "indentation was probed at offset " ++ toString offset ++ ", which is whitespace or the end of the text"
  | probedMidLine offset found =>
    "indentation was probed at offset " ++ toString offset ++ ", but " ++ String.ofList (quotedChar found) ++
      " comes before it on the same line"
  | expected what offset found =>
    "expected " ++ what ++ " at offset " ++ toString offset ++ ", found " ++ String.ofList (quoted found)
  | shape form captured =>
    "cannot build a " ++ form.label ++ " node out of " ++ String.ofList captured.describe
  | incomplete line column window =>
    "[" ++ toString line ++ ":" ++ toString column ++ "] parsing stopped before the end of the input, at " ++
      String.ofList (quoted window)

end Offside
