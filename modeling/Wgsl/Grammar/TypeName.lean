import Wgsl.Tree.Expression

/-!
# Type names that the grammar knows

Types are known by name, and nearly all names are alike to the grammar. It tells apart those whose
parameters have a meaning of their own (`ptr`, and the arrays with their number of elements), those
that can be called without parameters to build a value, and `bitcast`, which is spelled like a type
and is none.
-/

namespace Wgsl

/-- Names of types that can be called without parameters, built-in scalars and `array`. -/
def plainConstructors : List String := ["bool", "i32", "u32", "f32", "f16", "array"]

/-- A number of components: 2, 3 or 4. -/
def isDimension (c : Char) : Bool := c == '2' || c == '3' || c == '4'

/-- The name of a vector type, with or without the letter for its component type. -/
def namesVector : List Char → Bool
  | ['v', 'e', 'c', n] => isDimension n
  | ['v', 'e', 'c', n, t] => isDimension n && (t == 'i' || t == 'u' || t == 'f' || t == 'h')
  | _ => false

/-- The name of a matrix type, with or without the letter for its component type. -/
def namesMatrix : List Char → Bool
  | ['m', 'a', 't', m, 'x', n] => isDimension m && isDimension n
  | ['m', 'a', 't', m, 'x', n, t] => isDimension m && isDimension n && (t == 'f' || t == 'h')
  | _ => false

/-- A call of the name constructs a value of the type so named. -/
def isConstructible (name : String) : Bool :=
  plainConstructors.contains name || namesVector name.toList || namesMatrix name.toList

/-- The names of types whose second parameter is a number of elements. -/
def namesArray (name : String) : Bool := name == "array" || name == "binding_array"

/-- The type that a bitcast reads bits as. -/
def TypeSpecifier.bitcastTarget? (t : TypeSpecifier) : Option TypeSpecifier :=
  if t.name = "bitcast" then t.inner? else none

/-- A type has a bitcast target if its name is `bitcast` and it has a type among its parameters. -/
theorem TypeSpecifier.bitcastTarget?_eq_some_iff {t target : TypeSpecifier} :
    t.bitcastTarget? = some target ↔ t.name = "bitcast" ∧ t.inner? = some target := by
  by_cases h : t.name = "bitcast" <;> simp [bitcastTarget?, h]

end Wgsl
