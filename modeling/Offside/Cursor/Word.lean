import Offside.Cursor.Basic
import Offside.Text.Alphanumeric

/-!
# Words at a cursor

Two notions of a keyword that stands on its own. A word is set off by blanks, a term by anything but a letter, a digit
or `_`: a parenthesis right before `if` leaves it a term, but no word.
-/

namespace Offside

/-- Letters, digits and `_`. -/
def isWordChar (c : Char) : Bool :=
  isAlphanumeric c || c == '_'

namespace Cursor

/-- Whether a word is right after the cursor. An end of the word that is a letter, a digit or `_` needs a blank or an
end of the text beside it; a symbol needs none. -/
def matchesWord (c : Cursor) (word : Text) : Bool :=
  !word.isEmpty && c.peek word &&
    (!word.head?.any isWordChar || c.prev?.all isBlank) &&
    (!word.getLast?.any isWordChar || (c.advance word.length).next?.all isBlank)

/-- Whether a term is right after the cursor, with no letter, digit or `_` beside it. -/
def matchesTerm (c : Cursor) (term : Text) : Bool :=
  !term.isEmpty && c.peek term &&
    !c.prev?.any isWordChar && !(c.advance term.length).next?.any isWordChar

end Cursor

end Offside
