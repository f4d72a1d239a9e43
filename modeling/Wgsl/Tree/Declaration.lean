import Wgsl.Tree.Statement

/-!
# Declarations

A module is a list of declarations. Each is an item (a directive, an alias, a struct, a function,
a variable, an assertion) with the attributes written before it.
-/

namespace Wgsl

/-- A name with its type: a member of a struct, or a parameter of a function. -/
structure Binding where
  attributes : List Attribute
  name : String
  type : TypeSpecifier
  location : Location

/-- What a function returns. -/
structure FunctionResult where
  attributes : List Attribute
  type : TypeSpecifier

/-- A function. Its location is that of its name. -/
structure Function where
  name : String
  parameters : List Binding
  result : Option FunctionResult
  body : List Statement
  location : Location

/-- What is declared. -/
inductive Item
  /-- A directive that enables one extension or more. -/
  | enable (name : String) (additional : List String) (location : Location)
  | alias (name : String) (type : TypeSpecifier) (location : Location)
  | struct (name : String) (members : List Binding) (location : Location)
  | function (function : Function)
  | variable (declared : Variable)
  | assertion (condition : Expression) (location : Location)

/-- An item with the attributes before it. -/
structure Declaration where
  attributes : List Attribute
  item : Item

namespace Item

/-- The word that names the form of an item. -/
def formName : Item → String
  | .enable .. => "enable"
  | .alias .. => "alias"
  | .struct .. => "struct"
  | .function _ => "function"
  | .variable v => v.kind.keyword.lexeme
  | .assertion .. => "static_assert"

/-- The name that an item declares, or the first that it enables. -/
def name? : Item → Option String
  | .enable name _ _ | .alias name _ _ | .struct name _ _ => some name
  | .function f => some f.name
  | .variable v => some v.name
  | .assertion .. => none

/-- The location of the introducing keyword; of a function, that of its name. -/
def location : Item → Location
  | .enable _ _ l | .alias _ _ l | .struct _ _ l | .assertion _ l => l
  | .function f => f.location
  | .variable v => v.location

end Item

namespace Declaration

/-- What kind of declaration it is, in a word. -/
def formName (d : Declaration) : String := d.item.formName

/-- The name that is declared, or the first that is enabled. -/
def name? (d : Declaration) : Option String := d.item.name?

/-- Where what is declared stands, behind the attributes. -/
def location (d : Declaration) : Location := d.item.location

end Declaration

end Wgsl
