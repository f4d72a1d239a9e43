import Wgsl.Location
import Wgsl.Token.Keyword
import Wgsl.Token.Symbol

/-!
# Tokens

A token is what the grammar reads: a word, a number, a symbol, or the end of the file, with the
location of its first character. Text that belongs to no token is kept too, as an `invalid` token
with its fault: dividing a text into tokens never fails, and whoever reads the tokens decides what
an invalid one means.

Numbers are kept as they are spelled (`1.50`, `0x1p4f`, `3u`); their value is nobody's business
here.
-/

namespace Wgsl

/-- Why a piece of text is no token. -/
inductive LexicalFault
  | unexpectedCharacter
  | invalidNumber
  | unterminatedComment
  /-- A fault that another producer of tokens found, in its own words. -/
  | other (reason : String)
deriving DecidableEq, Inhabited

/-- The wording of a fault in messages. -/
def LexicalFault.reason : LexicalFault → String
  | .unexpectedCharacter => "unexpected character"
  | .invalidNumber => "invalid numeric literal"
  | .unterminatedComment => "unterminated block comment"
  | .other reason => reason

/-- What a token is, wherever it stands. -/
inductive TokenKind
  | identifier (name : String)
  | number (spelling : String)
  | keyword (word : Keyword)
  | symbol (mark : Symbol)
  /-- Text outside the lexical grammar. -/
  | invalid (text : String) (fault : LexicalFault)
  | endOfFile
deriving DecidableEq, Inhabited

/-- A token kind and the location of its first character. -/
structure Token where
  kind : TokenKind
  location : Location
deriving DecidableEq, Inhabited

namespace TokenKind

/-- The spelling of a token that has only one: of a keyword or a symbol. -/
def lexeme? : TokenKind → Option String
  | .keyword word => some word.lexeme
  | .symbol mark => some mark.lexeme
  | _ => none

/-- The text of a token in the source; the end of the file has none. -/
def text : TokenKind → String
  | .identifier name => name
  | .number spelling => spelling
  | .keyword word => word.lexeme
  | .symbol mark => mark.lexeme
  | .invalid text _ => text
  | .endOfFile => ""

/-- The token has a spelling of its own that begins with a letter. -/
def isKeyword (kind : TokenKind) : Bool :=
  kind.lexeme?.any fun text => text.toList.head?.any Char.isAlpha

/-- The token is text outside the lexical grammar. -/
def isInvalid : TokenKind → Bool
  | .invalid _ _ => true
  | _ => false

/-- How messages speak of a token. -/
def describe : TokenKind → String
  | .identifier name => s!"identifier '{name}'"
  | .number spelling => s!"number '{spelling}'"
  | .keyword word => s!"'{word.lexeme}'"
  | .symbol mark => s!"'{mark.lexeme}'"
  | .invalid text _ => s!"invalid text '{text}'"
  | .endOfFile => "end of file"

@[simp] theorem isKeyword_keyword (word : Keyword) : (keyword word).isKeyword = true := by
  cases word <;> rfl

@[simp] theorem isKeyword_symbol (mark : Symbol) : (symbol mark).isKeyword = false := by
  cases mark <;> rfl

@[simp] theorem isKeyword_endOfFile : endOfFile.isKeyword = false := rfl

/-- Letters begin the spellings of the keywords and of nothing else that has one. -/
theorem isKeyword_iff {kind : TokenKind} :
    kind.isKeyword = true ↔ ∃ word, kind = .keyword word := by
  cases kind with
  | keyword word => exact ⟨fun _ => ⟨word, rfl⟩, fun _ => isKeyword_keyword word⟩
  | symbol mark => simp only [isKeyword_symbol, Bool.false_eq_true, reduceCtorEq, exists_false]
  | _ => simp only [isKeyword, lexeme?, Option.any_none, Bool.false_eq_true, reduceCtorEq,
      exists_false]

end TokenKind

namespace Token

/-- The text of a token in the source. -/
def text (t : Token) : String := t.kind.text

/-- How messages speak of a token. -/
def describe (t : Token) : String := t.kind.describe

end Token

end Wgsl
