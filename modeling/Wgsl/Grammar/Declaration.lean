import Wgsl.Grammar.Statement

/-!
# Rules for declarations, and the module grammar

```text
module      ::= ( declaration | ";" )*
declaration ::= attribute* item
item        ::= "enable" name ( "," name )* ","? ";"
              | "alias" name "=" type ";"
              | "struct" name "{" ( binding ( "," binding )* ","? )? "}"
              | "fn" name "(" ( binding ( "," binding )* ","? )? ")" ( "->" attribute* type )? block
              | variable ";"
              | ( "static_assert" | "const_assert" ) condition ";"
binding     ::= attribute* name ":" type
```

`Production.ofNonterminal` gathers the rules of all nonterminals.
-/

namespace Wgsl

namespace BindingRole

/-- The bracket that closes the bindings. -/
def closing : BindingRole → Symbol
  | .member => .braceRight
  | .parameter => .parenRight

/-- Where the name of a binding is expected. -/
def namePlace : BindingRole → String
  | .member => "for struct member"
  | .parameter => "for parameter name"

/-- Where the colon of a binding is expected. -/
def colonPlace : BindingRole → String
  | .member => "after struct member name"
  | .parameter => "after parameter name"

end BindingRole

namespace Production

open Rule

/-- The names behind the first one of an `enable`. -/
def furtherNames : Production (List String) := do
  if ← accept .comma then
    if ← sees .semicolon then
      return []
    else
      let name ← identifier (.identifier "in enable list")
      let rest ← parse .furtherNames
      return name :: rest
  else
    return []

/-- Parameters or members between commas, up to what closes them. -/
def bindings (role : BindingRole) : Production (List Binding) := do
  if ← sees role.closing then
    return []
  else
    let attributes ← parse .attributes
    let start ← current
    let name ← identifier (.identifier role.namePlace)
    expect .colon role.colonPlace
    let type ← parse .type
    if ← accept .comma then
      let rest ← parse (.bindings role)
      return ⟨attributes, name, type, start.location⟩ :: rest
    else
      return [⟨attributes, name, type, start.location⟩]

/-- What a function returns, behind an arrow, if there is an arrow. -/
def functionResult : Production (Option FunctionResult) := do
  if ← accept .arrow then
    let attributes ← parse .attributes
    let type ← parse .type
    return some ⟨attributes, type⟩
  else
    return none

/-- What stands behind `fn`. -/
def function : Production Function := do
  let start ← current
  let name ← identifier (.identifier "for function name")
  expect .parenLeft "after function name"
  let parameters ← parse (.bindings .parameter)
  expect .parenRight "after parameters"
  let result ← parse .functionResult
  let body ← parse (.block "before function body")
  return ⟨name, parameters, result, body, start.location⟩

/-- What a declaration declares. -/
def item : Production Item := do
  let token ← current
  match token.kind with
  | .keyword .enable =>
    skip
    let name ← identifier (.identifier "after 'enable'")
    let additional ← parse .furtherNames
    expect .semicolon "after enable directive"
    return .enable name additional token.location
  | .keyword .alias =>
    skip
    let name ← identifier (.identifier "for alias name")
    expect .equal "after alias name"
    let type ← parse .type
    expect .semicolon "after alias"
    return .alias name type token.location
  | .keyword .struct =>
    skip
    let name ← identifier (.identifier "for struct name")
    expect .braceLeft "after struct name"
    let members ← parse (.bindings .member)
    expect .braceRight "after struct members"
    return .struct name members token.location
  | .keyword .fn =>
    skip
    let function ← parse .function
    return .function function
  | .keyword .staticAssert | .keyword .constAssert =>
    skip
    let condition ← condition
    expect .semicolon "after assertion"
    return .assertion condition token.location
  | .keyword .requires => .fail (.unsupported .requiresDirective token.location)
  | .keyword .diagnostic => .fail (.unsupported .diagnosticDirective token.location)
  | .symbol .bracketLeft => .fail (.unsupported .bracketAttribute token.location)
  | kind =>
    match kind.variableKind? with
    | some kind =>
      skip
      let declared ← parse (.variable kind token.location)
      expect .semicolon "after variable declaration"
      return .variable declared
    | none =>
      unexpected (.phrase ("global declaration ('enable', 'alias', 'struct', 'fn', 'var', " ++
        "'let', 'const', 'override' or 'static_assert')"))

/-- A declaration behind its attributes. -/
def declaration : Production Declaration := do
  let attributes ← parse .attributes
  let item ← parse .item
  return ⟨attributes, item⟩

/-- The declarations of a module, up to the end of the file. -/
def declarations : Production (List Declaration) := do
  match (← current).kind with
  | .symbol .semicolon =>
    skip
    parse .declarations
  | .endOfFile => return []
  | _ =>
    let d ← parse .declaration
    let rest ← parse .declarations
    return d :: rest

/-- The rule of a nonterminal. -/
@[simp] def ofNonterminal (options : ReadOptions) : (n : Nonterminal) → Production n.Result
  | .attribute => singleAttribute
  | .attributes => attributes
  | .type => type
  | .typeParameters typeName => typeParameters typeName
  | .constructorType => constructorType
  | .expression inAngles => expression inAngles
  | .operations inAngles => operations inAngles
  | .unary => unary
  | .suffixed => suffixed
  | .suffixes base => suffixes base
  | .primary => primary options
  | .expressions => expressions
  | .arguments => arguments
  | .construction type location => construction type location
  | .block place => block place
  | .storage kind => storage kind
  | .ascription => ascription
  | .initializer kind => initializer kind
  | .variable kind location => variableDeclaration kind location
  | .simpleStatement => simpleStatement
  | .plainStatement => plainStatement
  | .statement => statement
  | .statements => statements
  | .conditional => conditional
  | .alternatives => alternatives
  | .selection => selection
  | .clauses hasDefault => clauses hasDefault
  | .selectors => selectors
  | .forInitializer => forInitializer
  | .forCondition => forCondition
  | .forUpdate => forUpdate
  | .iteration => iteration
  | .repetition => repetition
  | .loop => loop
  | .loopBody => loopBody
  | .furtherNames => furtherNames
  | .bindings role => bindings role
  | .functionResult => functionResult
  | .function => function
  | .item => item
  | .declaration => declaration
  | .declarations => declarations

end Production

/-- The grammar of modules. -/
def moduleGrammar (options : ReadOptions) : Grammar Nonterminal.Result :=
  Production.ofNonterminal options

end Wgsl
