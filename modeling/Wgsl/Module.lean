import Wgsl.Grammar.Outcome
import Wgsl.Tokenize

/-!
# Modules

A module is its declarations, in order. `Module.ofSource` and its relatives read one from a text or
from tokens.

Behind them stands a reader, a place in a sequence of tokens with the options in force, for those
who read on, with the same options or others. Reading a module takes declarations until the file
ends or one is refused, and leaves the reader where that was. So behind an error the next module
begins with what was refused, and at the end of the file every module is empty.
-/

namespace Wgsl

/-- The declarations of a source file. -/
abbrev Module := List Declaration

/-- Where a reader stands, and how it reads. -/
structure Reader where
  cursor : Cursor
  options : ReadOptions

namespace Reader

/-- A reader at the beginning of a sequence of tokens. The end of the file may be missing. -/
def ofTokens (tokens : List Token) (options : ReadOptions := {}) : Reader :=
  ⟨.ofTokens tokens, options⟩

/-- A reader at the beginning of a source text. -/
def ofSource (source : String) (options : ReadOptions := {}) : Reader :=
  ofTokens (tokenize source) options

/-- The declarations up to the end of the file, or the first error; with the reader behind. -/
def next (r : Reader) : Except ParseError Module × Reader :=
  match Nonterminal.declarations.outcome r.options r.cursor with
  | .accepted declarations c => (.ok declarations, { r with cursor := c })
  | .rejected error c => (.error error, { r with cursor := c })

end Reader

namespace Module

/-- The module that tokens spell. -/
def ofTokens (tokens : List Token) (options : ReadOptions := {}) : Except ParseError Module :=
  (Reader.ofTokens tokens options).next.1

/-- The module that a text spells. -/
def ofSource (source : String) (options : ReadOptions := {}) : Except ParseError Module :=
  ofTokens (tokenize source) options

/-- The module that a text spells if there is one; without a text, the empty module. -/
def ofSource? (source : Option String) : Except ParseError Module :=
  source.elim (.ok []) ofSource

end Module

end Wgsl
