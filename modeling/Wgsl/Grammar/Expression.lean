import Wgsl.Grammar.Nonterminal
import Wgsl.Grammar.TypeName

/-!
# Rules for expressions, types and attributes

```text
expression ::= unary ( operator unary )*
unary      ::= ( "-" | "!" | "~" | "*" | "&" ) unary | suffixed
suffixed   ::= primary ( "[" expression "]" | "." name | "(" arguments ")" )*
primary    ::= number | "true" | "false" | "(" expression ")" | name
             | type "(" arguments ")"
type       ::= attribute* name ( "<" parameters ">" )?
attribute  ::= "@" name ( "(" arguments ")" )?
```

A name before `<` may begin a type to construct or be the left operand of a comparison. It begins
a type if it can be read as one that ends right before a `(`; otherwise it is read again, as a
name alone. Inside angle brackets a `>` always closes, so there `>`, `>=` and `>>` end an
expression.
-/

namespace Wgsl

/-- What the reader of a module may choose. -/
structure ReadOptions where
  /-- Keep parentheses around expressions as nodes. Conditions lose their outermost pair even so,
  as `if (c) {}` and `if c {}` mean the same. -/
  keepParentheses : Bool := false
deriving DecidableEq, Inhabited

namespace TokenKind

/-- The operator that a token is between operands. -/
def infix? : TokenKind → Option InfixOperator
  | .symbol mark => InfixOperator.ofSymbol? mark
  | _ => none

/-- The operator that a token is before an operand. -/
def unary? : TokenKind → Option UnaryOperator
  | .symbol mark => UnaryOperator.ofSymbol? mark
  | _ => none

/-- The token begins with a `>` that can close type parameters. -/
def closesAngle : TokenKind → Bool
  | .symbol .greaterThan | .symbol .greaterThanEqual | .symbol .shiftRight
  | .symbol .shiftRightEqual => true
  | _ => false

/-- The token is a numeric literal. -/
def isNumber : TokenKind → Bool
  | .number _ => true
  | _ => false

/-- The name of an attribute, which may be a keyword. -/
def attributeName? : TokenKind → Option String
  | .identifier name => some name
  | .keyword word => some word.lexeme
  | _ => none

end TokenKind

namespace Production

open Rule

/-- A condition, without its outermost parentheses. -/
def condition : Production Expression := do
  let e ← parse (.expression false)
  return e.withoutParentheses

/-! ## Attributes -/

/-- Any number of attributes. -/
def attributes : Production (List Attribute) := do
  if ← sees .attr then
    let a ← parse .attribute
    let rest ← parse .attributes
    return a :: rest
  else
    return []

/-- An attribute. Empty parentheses mean the same as none. -/
def singleAttribute : Production Attribute := do
  let opening ← current
  expect .attr "before attribute"
  match (← current).kind.attributeName? with
  | none => unexpected (.phrase "attribute name after '@'")
  | some name =>
    skip
    if ← accept .parenLeft then
      let arguments ← parse .expressions
      expect .parenRight "to close attribute arguments"
      return ⟨name, arguments, opening.location⟩
    else
      return ⟨name, [], opening.location⟩

/-! ## Types -/

/-- A type. What stands between its angles depends on its name. -/
def type : Production TypeSpecifier := do
  let attributes ← parse .attributes
  let start ← current
  let name ← identifier (.identifier "for type")
  if ← accept .lessThan then
    let parameters ← parse (.typeParameters name)
    return ⟨attributes, name, parameters, start.location⟩
  else
    return ⟨attributes, name, .none, start.location⟩

/-- A comma before a further type parameter, which is not there if the parameters end behind it. -/
def furtherParameter : Production Bool := do
  if ← accept .comma then
    return !(← current).kind.closesAngle
  else
    return false

/-- The end of the parameters of a type, with or without a comma before it. -/
def closeParameters (typeName : String) : Production Unit := do
  let _ ← accept .comma
  closeAngle (.closingAngle typeName)

/-- The parameters of a type, from behind the opening angle to the closing one. -/
def typeParameters (typeName : String) : Production TypeParameters := do
  if typeName = "ptr" then
    let storageClass ← identifier (.identifier "for pointer storage class")
    expect .comma "after pointer storage class"
    let target ← parse .type
    if ← furtherParameter then
      let accessMode ← identifier (.identifier "for pointer access mode")
      closeParameters typeName
      return .pointer storageClass target (some accessMode)
    else
      closeParameters typeName
      return .pointer storageClass target none
  else
    let element ← parse .type
    if ← furtherParameter then
      if namesArray typeName || (← current).kind.isNumber then
        let count ← parse (.expression true)
        closeParameters typeName
        return .counted element count
      else
        let accessMode ← identifier (.identifier "for access mode")
        closeParameters typeName
        return .element element (some accessMode)
    else
      closeParameters typeName
      return .element element none

/-- A type that a `(` follows. -/
def constructorType : Production TypeSpecifier := do
  let type ← parse .type
  if ← sees .parenLeft then return type else unexpected (.symbol .parenLeft "after type")

/-! ## Expressions -/

/-- Operands and operators; the tree is made when all are read. -/
def expression (inAngles : Bool) : Production Expression := do
  let first ← parse .unary
  let chain ← parse (.operations inAngles)
  return .ofChain first chain

/-- The operators behind the first operand, each with its right operand. -/
def operations (inAngles : Bool) : Production (List Operation) := do
  let token ← current
  match token.kind.infix? with
  | none => return []
  | some op =>
    if inAngles && token.kind.closesAngle then
      return []
    else
      skip
      let operand ← parse .unary
      let rest ← parse (.operations inAngles)
      return ⟨op, token.location, operand⟩ :: rest

/-- An operand behind its prefix operators. -/
def unary : Production Expression := do
  let token ← current
  match token.kind.unary? with
  | none => parse .suffixed
  | some op =>
    skip
    let operand ← parse .unary
    return .unary op operand token.location

/-- An operand with its suffixes. -/
def suffixed : Production Expression := do
  let base ← parse .primary
  parse (.suffixes base)

/-- What indexes, selects from or calls the base, read from left to right. -/
def suffixes (base : Expression) : Production Expression := do
  let token ← current
  match token.kind with
  | .symbol .bracketLeft =>
    skip
    let index ← parse (.expression false)
    expect .bracketRight "after index"
    parse (.suffixes (.index base index token.location))
  | .symbol .period =>
    skip
    let name ← identifier (.identifier "after '.'")
    parse (.suffixes (.member base name token.location))
  | .symbol .parenLeft =>
    match base with
    | .identifier callee location =>
      let arguments ← parse .arguments
      parse (.suffixes (.call callee arguments location))
    | _ => unexpected (.phrase "operator; only named functions can be called")
  | _ => return base

/-- A value built from a type. Building from `bitcast` with a target type is reading the bits of
one value as that type. -/
def construction (type : TypeSpecifier) (location : Location) : Production Expression := do
  let arguments ← parse .arguments
  match type.bitcastTarget?, arguments with
  | none, arguments => return .construct type arguments location
  | some target, [value] => return .bitcast target value location
  | some _, arguments => .fail (.bitcastArguments arguments.length location)

/-- An operand without prefixes and suffixes. -/
def primary (options : ReadOptions) : Production Expression := do
  let token ← current
  match token.kind with
  | .number spelling =>
    skip
    return .literal spelling (.ofSpelling spelling) token.location
  | .keyword .true =>
    skip
    return .literal "true" .bool token.location
  | .keyword .false =>
    skip
    return .literal "false" .bool token.location
  | .symbol .parenLeft =>
    skip
    let inner ← parse (.expression false)
    expect .parenRight "after expression"
    return if options.keepParentheses then .grouped inner token.location else inner
  | .identifier name =>
    match ← following with
    | .symbol .lessThan =>
      match ← parse? .constructorType with
      | some type => parse (.construction type token.location)
      | none =>
        skip
        return .identifier name token.location
    | .symbol .parenLeft =>
      skip
      if isConstructible name then
        let arguments ← parse .arguments
        return .construct ⟨[], name, .none, token.location⟩ arguments token.location
      else
        return .identifier name token.location
    | _ =>
      skip
      return .identifier name token.location
  | _ => unexpected (.phrase "expression")

/-- Expressions between commas, up to a closing parenthesis. -/
def expressions : Production (List Expression) := do
  if ← sees .parenRight then
    return []
  else
    let e ← parse (.expression false)
    if ← accept .comma then
      let rest ← parse .expressions
      return e :: rest
    else
      return [e]

/-- Expressions in parentheses. -/
def arguments : Production (List Expression) := do
  expect .parenLeft "to open argument list"
  let arguments ← parse .expressions
  expect .parenRight "after arguments"
  return arguments

end Production

end Wgsl
