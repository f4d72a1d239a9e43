/-!
# Locations

A location names a place in a source text by line and column, both counted from one. A column is
one character, whatever its width; only a line feed begins a new line, so a carriage return or a
line separator is a column like any other.

Lines and columns are natural numbers here, without an upper bound. Where they are machine words a
location differs only if a count reaches the bound of the word: no text in memory is that long, but
tokens from elsewhere can claim such a place, and a column moved right from there would wrap around.

`Location.after` is the whole of the bookkeeping: where a text ends that begins at a location.
Texts laid end to end move a location one after the other (`after_append`), so the tokens and the
layout between them can be walked piece by piece.
-/

namespace Wgsl

/-- A line and a column of a source text, both from one and unbounded. -/
structure Location where
  line : Nat
  column : Nat
deriving DecidableEq, Inhabited

namespace Location

/-- Where every source text begins. -/
def start : Location := ⟨1, 1⟩

/-- The location a number of columns to the right on the same line. -/
def rightBy (l : Location) (columns : Nat) : Location := ⟨l.line, l.column + columns⟩

/-- The location behind one character. -/
def next (l : Location) (c : Char) : Location :=
  if c = '\n' then ⟨l.line + 1, 1⟩ else l.rightBy 1

/-- The location behind a text. -/
def after (l : Location) (text : List Char) : Location := text.foldl next l

/-- The wording of a location in messages. -/
def display (l : Location) : String := s!"line {l.line}, column {l.column}"

@[simp] theorem rightBy_zero (l : Location) : l.rightBy 0 = l := rfl

@[simp] theorem rightBy_rightBy (l : Location) (m n : Nat) :
    (l.rightBy m).rightBy n = l.rightBy (m + n) := by
  simp [rightBy, Nat.add_assoc]

@[simp] theorem after_nil (l : Location) : l.after [] = l := rfl

@[simp] theorem after_cons (l : Location) (c : Char) (text : List Char) :
    l.after (c :: text) = (l.next c).after text := rfl

/-- Texts laid end to end move a location one after the other. -/
theorem after_append (l : Location) (a b : List Char) : l.after (a ++ b) = (l.after a).after b := by
  simp [after]

end Location

end Wgsl
