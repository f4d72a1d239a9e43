import Wgsl.Grammar.Expression

/-!
# Rules for variables and statements

```text
variable  ::= "var" ( "<" name ( "," name )? ">" )? name ( ":" type )? ( "=" expression )?
            | "override" name ( ":" type )? ( "=" expression )?
            | ( "let" | "const" ) name ( ":" type )? "=" expression
statement ::= attribute* compound | plain
compound  ::= block
            | "if" condition block ( "else" "if" condition block )* ( "else" block )?
            | "switch" condition "{" clause* "}"
            | "for" "(" initializer? ";" expression? ";" simple? ")" block
            | "while" condition block
            | "loop" "{" statement* ( "continuing" block )? "}"
clause    ::= "case" expression ( "," expression )* ","? ":"? block | "default" ":"? block
plain     ::= ( variable | simple | "return" expression? | "break" ( "if" condition )?
            | "continue" | "discard" | ( "static_assert" | "const_assert" ) condition ) ";"
simple    ::= unary ( assignment expression | "++" | "--" ) | call
```

Of a variable's type and initializer one at least has to be there. Stray semicolons between
statements mean nothing.
-/

namespace Wgsl

namespace TokenKind

/-- The kind of variable that a token introduces. -/
def variableKind? : TokenKind → Option VariableKind
  | .keyword word => VariableKind.ofKeyword? word
  | _ => none

/-- The kind of variable that a token introduces in a function body, where there are no
overrides. -/
def localVariableKind? (kind : TokenKind) : Option VariableKind :=
  kind.variableKind?.filter (· ≠ .override)

/-- The operator that a token is behind what is assigned to. -/
def assignment? : TokenKind → Option AssignmentOperator
  | .symbol mark => AssignmentOperator.ofSymbol? mark
  | _ => none

/-- The operator that a token is behind what is stepped. -/
def step? : TokenKind → Option StepOperator
  | .symbol mark => StepOperator.ofSymbol? mark
  | _ => none

end TokenKind

namespace Production

open Rule

/-- Statements in braces. The place names the block in an error. -/
def block (place : String) : Production (List Statement) := do
  expect .braceLeft place
  let statements ← parse .statements
  expect .braceRight "to close block"
  return statements

/-! ## Variables -/

/-- The storage of a `var`, in angle brackets; other variables have none. -/
def storage (kind : VariableKind) : Production (Option Storage) := do
  if kind = .var then
    if ← accept .lessThan then
      let storageClass ← identifier (.identifier "for storage class")
      if ← accept .comma then
        let accessMode ← identifier (.identifier "for access mode")
        closeAngle (.symbol .greaterThan "after variable storage class")
        return some ⟨storageClass, some accessMode⟩
      else
        closeAngle (.symbol .greaterThan "after variable storage class")
        return some ⟨storageClass, none⟩
    else
      return none
  else
    return none

/-- A type behind a colon, if there is a colon. -/
def ascription : Production (Option TypeSpecifier) := do
  if ← accept .colon then
    let type ← parse .type
    return some type
  else
    return none

/-- The value of a variable behind an equals sign. Only a `var` or an `override` can do without. -/
def initializer (kind : VariableKind) : Production (Option Expression) := do
  if ← accept .equal then
    let e ← parse (.expression false)
    return some e
  else if kind = .let ∨ kind = .const then
    unexpected (.initializer kind.keyword)
  else
    return none

/-- What stands behind the word that introduces a variable. -/
def variableDeclaration (kind : VariableKind) (location : Location) : Production Variable := do
  let storage ← parse (.storage kind)
  let name ← identifier (.nameAfter kind.keyword)
  let type ← parse .ascription
  let initializer ← parse (.initializer kind)
  if type.isNone && initializer.isNone then
    unexpected (.typeOrInitializer name)
  else
    return ⟨kind, storage, name, type, initializer, location⟩

/-! ## Statements -/

/-- An assignment, a step or a call, without its semicolon. -/
def simpleStatement : Production SimpleStatement := do
  let start ← current
  let target ← parse .unary
  let token ← current
  match token.kind.assignment?, token.kind.step?, target with
  | some op, _, _ =>
    skip
    let value ← parse (.expression false)
    return .assign target op value start.location
  | none, some op, _ =>
    skip
    return .step target op start.location
  | none, none, .call callee arguments _ => return .call callee arguments start.location
  | none, none, _ => unexpected (.phrase "assignment, '++', '--' or function call")

/-- A statement that ends with a semicolon. -/
def plainStatement : Production Statement := do
  let token ← current
  match token.kind with
  | .keyword .return =>
    skip
    if ← accept .semicolon then
      return .return none token.location
    else
      let value ← parse (.expression false)
      expect .semicolon "after return"
      return .return (some value) token.location
  | .keyword .break =>
    skip
    if (← current).kind = .keyword .if then
      skip
      let condition ← condition
      expect .semicolon "after 'break if' condition"
      return .breakIf condition token.location
    else
      expect .semicolon "after 'break'"
      return .break token.location
  | .keyword .continue =>
    skip
    expect .semicolon "after 'continue'"
    return .continue token.location
  | .keyword .discard =>
    skip
    expect .semicolon "after 'discard'"
    return .discard token.location
  | .keyword .staticAssert | .keyword .constAssert =>
    skip
    let condition ← condition
    expect .semicolon "after assertion"
    return .assertion condition token.location
  | kind =>
    match kind.localVariableKind? with
    | some kind =>
      skip
      let declared ← parse (.variable kind token.location)
      expect .semicolon "after variable declaration"
      return .variable declared
    | none =>
      let statement ← parse .simpleStatement
      expect .semicolon "after statement"
      return .simple statement

/-- A statement. Only what opens a block may have attributes. -/
def statement : Production Statement := do
  let attributes ← parse .attributes
  let token ← current
  match token.kind with
  | .keyword .if =>
    skip
    let form ← parse .conditional
    return .compound attributes form token.location
  | .keyword .switch =>
    skip
    let form ← parse .selection
    return .compound attributes form token.location
  | .keyword .for =>
    skip
    let form ← parse .iteration
    return .compound attributes form token.location
  | .keyword .loop =>
    skip
    let form ← parse .loop
    return .compound attributes form token.location
  | .keyword .while =>
    skip
    let form ← parse .repetition
    return .compound attributes form token.location
  | .symbol .braceLeft =>
    let statements ← parse (.block "for block")
    return .compound attributes (.block statements) token.location
  | _ =>
    if attributes.isEmpty then
      parse .plainStatement
    else
      unexpected (.phrase
        "'if', 'switch', 'for', 'while', 'loop' or '\x7b' after statement attributes")

/-- The statements of a block, up to its closing brace. -/
def statements : Production (List Statement) := do
  match (← current).kind with
  | .symbol .semicolon =>
    skip
    parse .statements
  | .symbol .braceRight | .endOfFile => return []
  | _ =>
    let s ← parse .statement
    let rest ← parse .statements
    return s :: rest

/-! ## Compound statements -/

/-- What stands behind `if`. -/
def conditional : Production CompoundStatement := do
  let condition ← condition
  let body ← parse (.block "for 'if' body")
  let (alternatives, otherwise) ← parse .alternatives
  return .if condition body alternatives otherwise

/-- The `else` parts of an `if`. The last of them may be without a condition. -/
def alternatives : Production (List Alternative × Option (List Statement)) := do
  if (← current).kind = .keyword .else then
    skip
    let token ← current
    if token.kind = .keyword .if then
      skip
      let condition ← condition
      let body ← parse (.block "for 'else if' body")
      let (alternatives, otherwise) ← parse .alternatives
      return (⟨condition, body, token.location⟩ :: alternatives, otherwise)
    else
      let body ← parse (.block "for 'else' body")
      return ([], some body)
  else
    return ([], none)

/-- What stands behind `switch`. -/
def selection : Production CompoundStatement := do
  let selector ← condition
  expect .braceLeft "before switch body"
  let clauses ← parse (.clauses false)
  expect .braceRight "after switch body"
  return .switch selector clauses

/-- The clauses of a `switch`, of which one default may have been read. -/
def clauses (hasDefault : Bool) : Production (List Clause) := do
  let token ← current
  match token.kind with
  | .symbol .braceRight => return []
  | .keyword .case =>
    skip
    let selectors ← parse .selectors
    let _ ← accept .colon
    let body ← parse (.block "for case body")
    let rest ← parse (.clauses hasDefault)
    return .case selectors body token.location :: rest
  | .keyword .default =>
    if hasDefault then
      unexpected (.phrase "'case' or '\x7d'; a switch has at most one 'default'")
    else
      skip
      let _ ← accept .colon
      let body ← parse (.block "for default body")
      let rest ← parse (.clauses true)
      return .default body token.location :: rest
  | _ => unexpected (.phrase "'case', 'default' or '\x7d' in switch body")

/-- The selectors of a case, one at least. -/
def selectors : Production (List Expression) := do
  let e ← parse (.expression false)
  if ← accept .comma then
    let kind := (← current).kind
    if kind = .symbol .colon ∨ kind = .symbol .braceLeft then
      return [e]
    else
      let rest ← parse .selectors
      return e :: rest
  else
    return [e]

/-- What a `for` does first, if anything. -/
def forInitializer : Production (Option ForInitializer) := do
  let token ← current
  if token.kind = .symbol .semicolon then
    return none
  else
    match token.kind.localVariableKind? with
    | some kind =>
      skip
      let declared ← parse (.variable kind token.location)
      return some (.variable declared)
    | none =>
      let statement ← parse .simpleStatement
      return some (.simple statement)

/-- What a `for` tests before a round, if anything. -/
def forCondition : Production (Option Expression) := do
  if ← sees .semicolon then
    return none
  else
    let condition ← parse (.expression false)
    return some condition

/-- What a `for` does after a round, if anything. -/
def forUpdate : Production (Option SimpleStatement) := do
  if ← sees .parenRight then
    return none
  else
    let statement ← parse .simpleStatement
    return some statement

/-- What stands behind `for`. -/
def iteration : Production CompoundStatement := do
  expect .parenLeft "after 'for'"
  let initializer ← parse .forInitializer
  expect .semicolon "after for initializer"
  let condition ← parse .forCondition
  expect .semicolon "after for condition"
  let update ← parse .forUpdate
  expect .parenRight "after for clauses"
  let body ← parse (.block "for 'for' body")
  return .for initializer condition update body

/-- What stands behind `while`. -/
def repetition : Production CompoundStatement := do
  let condition ← condition
  let body ← parse (.block "for 'while' body")
  return .while condition body

/-- What stands behind `loop`. -/
def loop : Production CompoundStatement := do
  expect .braceLeft "for 'loop' body"
  let (body, continuing) ← parse .loopBody
  expect .braceRight "after loop body"
  return .loop body continuing

/-- The statements of a `loop`, and its `continuing` block, which nothing may follow. -/
def loopBody : Production (List Statement × Option (List Statement)) := do
  match (← current).kind with
  | .symbol .semicolon =>
    skip
    parse .loopBody
  | .symbol .braceRight => return ([], none)
  | .keyword .continuing =>
    skip
    let continuing ← parse (.block "for 'continuing' body")
    return ([], some continuing)
  | _ =>
    let s ← parse .statement
    let (rest, continuing) ← parse .loopBody
    return (s :: rest, continuing)

end Production

end Wgsl
