import Wgsl.Location
import Wgsl.Tree.LiteralKind
import Wgsl.Tree.Operator

/-!
# Expressions, types and attributes

These three nest in one another: a type may count its elements by an expression and carry
attributes, an attribute has expressions as arguments, and an expression may construct a value of
a type. Every node keeps the location of the token that is most its own: an operator for an
operation, the opening token of an index or a member access, a name for the rest.

Names stay strings: which names are declared, and what a storage class or an access mode may be
called, is not a matter of the grammar.
-/

namespace Wgsl

mutual

/-- An expression. Parentheses leave a node, `grouped`, only where they are to be kept. -/
inductive Expression
  | literal (spelling : String) (kind : LiteralKind) (location : Location)
  | identifier (name : String) (location : Location)
  | unary (op : UnaryOperator) (operand : Expression) (location : Location)
  | binary (op : BinaryOperator) (left right : Expression) (location : Location)
  | logical (op : LogicalOperator) (left right : Expression) (location : Location)
  | member (object : Expression) (name : String) (location : Location)
  | index (object index : Expression) (location : Location)
  | call (callee : String) (arguments : List Expression) (location : Location)
  /-- A value built from its type: `vec3<i32>(0, 1, 0)`, `array(a, b)`. -/
  | construct (type : TypeSpecifier) (arguments : List Expression) (location : Location)
  /-- The bits of a value read as another type. -/
  | bitcast (target : TypeSpecifier) (value : Expression) (location : Location)
  | grouped (inner : Expression) (location : Location)

/-- A type by name, with its parameters: `f32`, `vec3<f32>`, `ptr<storage, T, read_write>`. -/
structure TypeSpecifier where
  attributes : List Attribute
  name : String
  parameters : TypeParameters
  location : Location

/-- What stands in the angle brackets behind a type's name. -/
inductive TypeParameters
  | none
  /-- The parameters of a pointer type: where it points, to what, and what may be done there. -/
  | pointer (storageClass : String) (target : TypeSpecifier) (accessMode : Option String)
  /-- An element type, with an access mode for those types that have one. -/
  | element (type : TypeSpecifier) (accessMode : Option String)
  /-- An element type and the number of elements. -/
  | counted (type : TypeSpecifier) (count : Expression)

/-- An annotation `@name(arguments)`. -/
structure Attribute where
  name : String
  arguments : List Expression
  location : Location

end

instance : Inhabited Expression := ⟨.identifier "" default⟩
instance : Inhabited Attribute := ⟨⟨"", [], default⟩⟩
instance : Inhabited TypeSpecifier := ⟨⟨[], "", .none, default⟩⟩

namespace Expression

/-- The location of the token that the expression is known by. -/
def location : Expression → Location
  | .literal _ _ l | .identifier _ l | .unary _ _ l | .binary _ _ _ l | .logical _ _ _ l
  | .member _ _ l | .index _ _ l | .call _ _ l | .construct _ _ l | .bitcast _ _ l
  | .grouped _ l => l

/-- The expression without its outermost parentheses, if it has some. One pair is taken. -/
def withoutParentheses : Expression → Expression
  | .grouped inner _ => inner
  | e => e

/-- The text of a literal. -/
def literal? : Expression → Option String
  | .literal spelling _ _ => some spelling
  | _ => none

/-- Two operands joined by an operator that stands at a location. -/
def join (op : InfixOperator) (left right : Expression) (location : Location) : Expression :=
  match op with
  | .binary op => .binary op left right location
  | .logical op => .logical op left right location

end Expression

namespace TypeParameters

/-- The type inside the angle brackets. -/
def type? : TypeParameters → Option TypeSpecifier
  | .none => Option.none
  | .pointer _ type _ | .element type _ | .counted type _ => some type

end TypeParameters

namespace TypeSpecifier

/-- The nested type: what a pointer points to, or what a container's elements are. -/
def inner? (t : TypeSpecifier) : Option TypeSpecifier := t.parameters.type?

/-- The number of elements. -/
def count? (t : TypeSpecifier) : Option Expression :=
  match t.parameters with
  | .counted _ count => some count
  | _ => none

/-- The storage class of a pointer type. -/
def storageClass? (t : TypeSpecifier) : Option String :=
  match t.parameters with
  | .pointer storageClass _ _ => some storageClass
  | _ => none

/-- The access mode among the parameters, if there is one. -/
def accessMode? (t : TypeSpecifier) : Option String :=
  match t.parameters with
  | .pointer _ _ accessMode | .element _ accessMode => accessMode
  | _ => none

/-- The text of a count that is written as a literal. -/
def literalCount? (t : TypeSpecifier) : Option String := t.count?.bind Expression.literal?

end TypeSpecifier

namespace Attribute

/-- The text of the first argument, if it is a literal or an identifier: `0` in `@group(0)`,
`position` in `@builtin(position)`. -/
def value? (a : Attribute) : Option String :=
  match a.arguments with
  | .literal spelling _ _ :: _ => some spelling
  | .identifier name _ :: _ => some name
  | _ => none

/-- The first attribute of a name. -/
def find? (name : String) (attributes : List Attribute) : Option Attribute :=
  attributes.find? (·.name == name)

/-- One more attribute in an index: behind those of its name, or under a new name. -/
def insertIndex (a : Attribute) : List (String × List Attribute) → List (String × List Attribute)
  | [] => [(a.name, [a])]
  | (name, group) :: index =>
    if name = a.name then (name, group ++ [a]) :: index else (name, group) :: insertIndex a index

/-- The attributes grouped by name. Names stand in the order of their first attribute, and the
attributes of a name in their own order. -/
def index (attributes : List Attribute) : List (String × List Attribute) :=
  attributes.foldl (fun index a => insertIndex a index) []

end Attribute

end Wgsl
