import Wgsl.Token

/-!
# Errors

Reading a module fails in one place for one reason, and an error holds both. What was expected is
kept by its parts rather than as a text, and the texts are made here, so that wording is decided in
one module.

Text outside the lexical grammar is an error of its own. Wherever a token is refused,
`ParseError.unexpected` looks first whether it is an invalid one, and then reports the fault of its
text, not what the grammar had expected.
-/

namespace Wgsl

/-- What the grammar asked for where something else stood. -/
inductive Expectation
  /-- A symbol at a place of the grammar. -/
  | symbol (mark : Symbol) (place : String)
  /-- An identifier at a place of the grammar. -/
  | identifier (place : String)
  /-- One of several things, in words. -/
  | phrase (text : String)
  /-- A `=` that must follow the name in a declaration of a constant. -/
  | initializer (introducer : Keyword)
  /-- A name behind the word that introduces a variable. -/
  | nameAfter (introducer : Keyword)
  /-- A type or an initializer for a variable. -/
  | typeOrInitializer (name : String)
  /-- The end of the parameters of a type. -/
  | closingAngle (typeName : String)
deriving DecidableEq, Inhabited

/-- The wording of an expectation. -/
def Expectation.display : Expectation → String
  | .symbol mark place => s!"'{mark.lexeme}' {place}"
  | .identifier place => s!"identifier {place}"
  | .phrase text => text
  | .initializer introducer => s!"'=' and initializer for '{introducer.lexeme}' declaration"
  | .nameAfter introducer => s!"identifier after '{introducer.lexeme}'"
  | .typeOrInitializer name => s!"':' type or '=' initializer for '{name}'"
  | .closingAngle typeName => s!"'>' to close '{typeName}' type parameters"

/-- What the grammar knows by its first token and does not read. -/
inductive UnsupportedConstruct
  | requiresDirective
  | diagnosticDirective
  | bracketAttribute
deriving DecidableEq, Inhabited

/-- The wording of an unsupported construct. -/
def UnsupportedConstruct.display : UnsupportedConstruct → String
  | .requiresDirective => "'requires' directive"
  | .diagnosticDirective => "'diagnostic' directive"
  | .bracketAttribute => "'[[...]]' attribute syntax"

/-- Why a module could not be read, and where. -/
inductive ParseError
  /-- Text outside the lexical grammar was reached. -/
  | lexical (fault : LexicalFault) (text : String) (location : Location)
  /-- A token stands where something else was expected. -/
  | unexpected (expected : Expectation) (found : TokenKind) (location : Location)
  /-- A bitcast has a number of arguments other than one. -/
  | bitcastArguments (count : Nat) (location : Location)
  | unsupported (construct : UnsupportedConstruct) (location : Location)
deriving DecidableEq, Inhabited

namespace ParseError

/-- Where the error stands. -/
def location : ParseError → Location
  | .lexical _ _ l | .unexpected _ _ l | .bitcastArguments _ l | .unsupported _ l => l

/-- What was expected, in words; empty where the error is not about an expectation. -/
def expected : ParseError → String
  | .unexpected e _ _ => e.display
  | .bitcastArguments _ _ => "exactly one bitcast argument"
  | _ => ""

/-- What was found instead, in words; empty where the error is not about an expectation. -/
def found : ParseError → String
  | .unexpected _ kind _ => kind.describe
  | .bitcastArguments count _ => s!"{count} arguments"
  | _ => ""

/-- The whole message. -/
def message (e : ParseError) : String :=
  match e with
  | .lexical fault text l => s!"Lexical error at {l.display}: {fault.reason} '{text}'"
  | .unsupported construct l => s!"Unsupported construct at {l.display}: {construct.display}"
  | .unexpected .. | .bitcastArguments .. =>
    s!"Parse error at {e.location.display}: expected {e.expected}, found {e.found}"

/-- The error for a token that stands where something else was expected. -/
def ofToken (expected : Expectation) (token : Token) : ParseError :=
  match token.kind with
  | .invalid text fault => .lexical fault text token.location
  | kind => .unexpected expected kind token.location

@[simp] theorem location_ofToken (expected : Expectation) (token : Token) :
    (ofToken expected token).location = token.location := by
  rw [ofToken]
  split <;> rfl

end ParseError

end Wgsl
