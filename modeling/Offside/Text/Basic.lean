/-!
# Text

Source text is a list of characters (Unicode scalar values). This module holds what needs no position: blanks, trimming,
lines, and the search for a literal.
-/

namespace Offside

/-- Source text: any sequence of Unicode scalar values. -/
abbrev Text := List Char

/-- Whether a character has the Unicode property `White_Space`; a newline is a blank too. -/
def isBlank (c : Char) : Bool :=
  let n := c.toNat
  (0x9 ≤ n && n ≤ 0xD) || n == 0x20 || n == 0x85 || n == 0xA0 || n == 0x1680 || (0x2000 ≤ n && n ≤ 0x200A) ||
    n == 0x2028 || n == 0x2029 || n == 0x202F || n == 0x205F || n == 0x3000

namespace Text

/-- The number of bytes that the text takes in UTF-8. -/
def utf8Size : Text → Nat
  | [] => 0
  | c :: t => c.utf8Size + utf8Size t

@[simp] theorem utf8Size_nil : utf8Size [] = 0 := rfl

@[simp] theorem utf8Size_cons (c : Char) (t : Text) : utf8Size (c :: t) = c.utf8Size + utf8Size t := rfl

@[simp] theorem utf8Size_append (s t : Text) : utf8Size (s ++ t) = utf8Size s + utf8Size t := by
  induction s with
  | nil => simp
  | cons c s ih => simp [ih, Nat.add_assoc]

/-- The number of characters that make up the first bytes of the text, if they end between two characters. -/
def charsIn? : Nat → Text → Option Nat
  | 0, _ => some 0
  | _ + 1, [] => none
  | bytes + 1, c :: t =>
    if c.utf8Size ≤ bytes + 1 then (charsIn? (bytes + 1 - c.utf8Size) t).map (· + 1) else none

/-- The text without the blanks it ends with. -/
def trimEnd (t : Text) : Text :=
  (t.reverse.dropWhile isBlank).reverse

/-- The text without the blanks around it. -/
def trim (t : Text) : Text :=
  trimEnd (t.dropWhile isBlank)

/-- The part before the first newline. -/
def firstLine (t : Text) : Text :=
  t.takeWhile (· != '\n')

/-- The pieces between newlines, in order; a text without a newline is one piece. -/
def lines : Text → List Text
  | [] => [[]]
  | c :: t =>
    if c == '\n' then [] :: lines t
    else match lines t with
      | [] => [[c]]
      | line :: more => (c :: line) :: more

/-- The number of characters before the first occurrence of a literal. -/
def indexOf? : Text → Text → Option Nat
  | [], literal => if literal.isEmpty then some 0 else none
  | c :: t, literal => if literal.isPrefixOf (c :: t) then some 0 else (indexOf? t literal).map (· + 1)

/-- What comes before a literal that ends the text. -/
def stripSuffix? (t literal : Text) : Option Text :=
  if literal.isSuffixOf t then some (t.take (t.length - literal.length)) else none

end Text

end Offside
