import Wgsl.Text.Alphabetic
import Wgsl.Text.Numeric

/-!
# Words

A word is what an identifier or a keyword is spelled with: it begins with a low line or an
alphabetic character and goes on with low lines, alphabetic and numeric characters.
-/

namespace Wgsl.Text

/-- A word may begin with the character. -/
def startsWord (c : Char) : Bool := c == '_' || isAlphabetic c

/-- A word may go on with the character. -/
def continuesWord (c : Char) : Bool := c == '_' || isAlphabetic c || isNumeric c

/-- Whatever may begin a word may go on one. -/
theorem continuesWord_of_startsWord {c : Char} (h : startsWord c = true) :
    continuesWord c = true := by
  simp_all [startsWord, continuesWord]

end Wgsl.Text
