import Offside.Text.Basic
import Offside.Text.Printable

/-!
# Quoted text

The form in which messages and structural descriptions show text: between quotes, one visible line whatever the text
holds.
-/

namespace Offside

/-- A character by its code: a backslash, `u`, and the code in lower-case hexadecimal between braces. -/
def escapeCode (c : Char) : Text :=
  ['\\', 'u', '\x7b'] ++ Nat.toDigits 16 c.toNat ++ ['\x7d']

/-- A character as it stands between two quotes of the given kind: the quote itself and the backslash after a backslash,
the four common controls by a letter or a zero, and what does not show as itself by its code. -/
def escape (quote c : Char) : Text :=
  if c == quote || c == '\\' then ['\\', c]
  else if c == '\n' then ['\\', 'n']
  else if c == '\r' then ['\\', 'r']
  else if c == '\t' then ['\\', 't']
  else if c == '\x00' then ['\\', '0']
  else if showsAsItself c then [c]
  else escapeCode c

/-- A text in double quotes; a single quote in it stays as it is. -/
def quoted (t : Text) : Text :=
  '\x22' :: t.flatMap (escape '\x22') ++ ['\x22']

/-- A character in single quotes; a double quote stays as it is. -/
def quotedChar (c : Char) : Text :=
  '\x27' :: escape '\x27' c ++ ['\x27']

end Offside
