import Wgsl.Rule
import Wgsl.Tree.Chain
import Wgsl.Tree.Declaration

/-!
# Nonterminals

What the grammar has a name for, and what each name stands for. Lists of like things (attributes,
members, statements, operations) are nonterminals too: each reads one thing and then itself.

Several nonterminals begin behind the word or bracket that introduces them; the rule that read the
introduction passes on what is known by then, such as the location.
-/

namespace Wgsl

/-- Bindings are members of a struct or parameters of a function. -/
inductive BindingRole
  | member
  | parameter
deriving DecidableEq, Inhabited

/-- What the grammar has a name for. -/
inductive Nonterminal
  | attribute
  | attributes
  | type
  /-- The parameters of a type of a name, behind the opening angle. -/
  | typeParameters (typeName : String)
  /-- A type before an opening parenthesis, which is not read. -/
  | constructorType
  | expression (inAngles : Bool)
  /-- Operators with their right operands. -/
  | operations (inAngles : Bool)
  | unary
  | suffixed
  /-- Indices, member accesses and a call behind an expression. -/
  | suffixes (base : Expression)
  | primary
  /-- Expressions between commas, up to a closing parenthesis. -/
  | expressions
  /-- Expressions between commas in parentheses. -/
  | arguments
  /-- A value of a type, behind the type. -/
  | construction (type : TypeSpecifier) (location : Location)
  /-- Statements in braces, which stand at a place of the grammar. -/
  | block (place : String)
  /-- The storage of a variable, if it is written. -/
  | storage (kind : VariableKind)
  /-- A type behind a colon, if there is a colon. -/
  | ascription
  /-- A value behind an equals sign, if there is one. -/
  | initializer (kind : VariableKind)
  /-- A variable behind its introducing word. -/
  | variable (kind : VariableKind) (location : Location)
  | simpleStatement
  /-- A statement that takes no attributes. -/
  | plainStatement
  | statement
  | statements
  /-- An `if` behind the word. -/
  | conditional
  /-- The further conditions of an `if`, and what remains otherwise. -/
  | alternatives
  /-- A `switch` behind the word. -/
  | selection
  /-- The clauses of a `switch`, one of which may have been its default. -/
  | clauses (hasDefault : Bool)
  /-- The selectors of a clause. -/
  | selectors
  /-- What a `for` does before the first round, if anything. -/
  | forInitializer
  /-- What a `for` tests before a round, if anything. -/
  | forCondition
  /-- What a `for` does after a round, if anything. -/
  | forUpdate
  /-- A `for` behind the word. -/
  | iteration
  /-- A `while` behind the word. -/
  | repetition
  /-- A `loop` behind the word. -/
  | loop
  /-- The statements of a `loop`, and its continuing block. -/
  | loopBody
  /-- Names behind commas in a directive. -/
  | furtherNames
  /-- Bindings between commas, up to a closing bracket. -/
  | bindings (role : BindingRole)
  /-- What a function returns, behind an arrow, if there is an arrow. -/
  | functionResult
  /-- A function behind the word. -/
  | function
  | item
  | declaration
  | declarations

/-- What a nonterminal stands for. -/
abbrev Nonterminal.Result : Nonterminal → Type
  | .attribute => Attribute
  | .attributes => List Attribute
  | .type | .constructorType => TypeSpecifier
  | .typeParameters _ => TypeParameters
  | .expression _ | .unary | .suffixed | .suffixes _ | .primary | .construction _ _ => Expression
  | .operations _ => List Operation
  | .expressions | .arguments | .selectors => List Expression
  | .storage _ => Option Storage
  | .ascription => Option TypeSpecifier
  | .initializer _ | .forCondition => Option Expression
  | .variable _ _ => Variable
  | .simpleStatement => SimpleStatement
  | .plainStatement | .statement => Statement
  | .statements | .block _ => List Statement
  | .conditional | .selection | .iteration | .repetition | .loop => CompoundStatement
  | .alternatives => List Alternative × Option (List Statement)
  | .clauses _ => List Clause
  | .forInitializer => Option ForInitializer
  | .forUpdate => Option SimpleStatement
  | .loopBody => List Statement × Option (List Statement)
  | .furtherNames => List String
  | .bindings _ => List Binding
  | .functionResult => Option FunctionResult
  | .function => Function
  | .item => Item
  | .declaration => Declaration
  | .declarations => List Declaration

/-- A rule that reads nonterminals of the module grammar. -/
abbrev Production (α : Type) := Rule Nonterminal.Result α

/-- Read what a nonterminal stands for. -/
abbrev Production.parse (n : Nonterminal) : Production n.Result := .read n .done

/-- Read what a nonterminal stands for, or nothing if it is refused. -/
abbrev Production.parse? (n : Nonterminal) : Production (Option n.Result) := .attempt n .done

end Wgsl
