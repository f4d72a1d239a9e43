import Wgsl.Grammar.Statement

/-!
# Trees that can be written

The types of trees allow more than the grammar writes: a call of `vec3`, a `let` without a value,
a `switch` with two defaults. `WellShaped` is what the grammar promises besides, node by node, for
trees that have no parentheses as nodes. Where a name decides what stands behind it (`ptr`, the
arrays, `bitcast`, what can be called to build a value), the shape agrees with the name.

Names and literals are not looked at. A literal whose kind is not that of its text has no spelling.
-/

namespace Wgsl

/-! ## Expressions, types and attributes -/

/-- The type begins a value built from it: it has no attributes, and it is either written with
parameters and is not `bitcast`, or its name alone can be called. -/
def TypeSpecifier.BeginsValue (t : TypeSpecifier) : Prop :=
  t.attributes = [] ∧
    match t.parameters with
    | .none => isConstructible t.name
    | _ => t.name ≠ "bitcast"

mutual

/-- No parentheses are nodes, a name that builds values is never merely called, and what is built
has a type that can build it. -/
def Expression.WellShaped : Expression → Prop
  | .literal .. | .identifier .. => True
  | .unary _ operand _ => operand.WellShaped
  | .binary _ left right _ | .logical _ left right _ => left.WellShaped ∧ right.WellShaped
  | .member object _ _ => object.WellShaped
  | .index object index _ => object.WellShaped ∧ index.WellShaped
  | .call callee arguments _ => ¬isConstructible callee ∧ expressionsWellShaped arguments
  | .construct type arguments _ =>
    type.BeginsValue ∧ type.WellShaped ∧ expressionsWellShaped arguments
  | .bitcast target value _ => target.WellShaped ∧ value.WellShaped
  | .grouped .. => False

/-- The parameters agree with the name. -/
def TypeSpecifier.WellShaped : TypeSpecifier → Prop
  | ⟨attributes, name, parameters, _⟩ =>
    attributesWellShaped attributes ∧ parameters.WellShaped name

/-- Only a pointer type has a storage class, only an array a number of elements, and an array has no
access mode. -/
def TypeParameters.WellShaped : TypeParameters → String → Prop
  | .none, _ => True
  | .pointer _ target _, name => name = "ptr" ∧ target.WellShaped
  | .element type accessMode, name =>
    name ≠ "ptr" ∧ (accessMode.isSome → ¬namesArray name) ∧ type.WellShaped
  | .counted type count, name => namesArray name ∧ type.WellShaped ∧ count.WellShaped

/-- What an attribute is given can be written. -/
def Attribute.WellShaped : Attribute → Prop
  | ⟨_, arguments, _⟩ => expressionsWellShaped arguments

/-- Every attribute can be written. -/
def attributesWellShaped : List Attribute → Prop
  | [] => True
  | a :: as => a.WellShaped ∧ attributesWellShaped as

/-- Every expression of a list can be written. -/
def expressionsWellShaped : List Expression → Prop
  | [] => True
  | e :: es => e.WellShaped ∧ expressionsWellShaped es

end

/-! ## Variables and statements -/

/-- Only a `var` has a storage, a `let` or a `const` has a value, and every variable has a type or a
value. -/
structure Variable.WellShaped (v : Variable) : Prop where
  storage : v.storage.isSome → v.kind = .var
  initializer : v.kind = .let ∨ v.kind = .const → v.initializer.isSome
  typeOrInitializer : v.type.isSome ∨ v.initializer.isSome
  ofType : ∀ t ∈ v.type, t.WellShaped
  ofInitializer : ∀ e ∈ v.initializer, e.WellShaped

/-- A name that builds values is not called as a statement. -/
def SimpleStatement.WellShaped : SimpleStatement → Prop
  | .assign target _ value _ => target.WellShaped ∧ value.WellShaped
  | .step target _ _ => target.WellShaped
  | .call callee arguments _ => ¬isConstructible callee ∧ expressionsWellShaped arguments

/-- In a function body there are no overrides. -/
def Variable.Local (v : Variable) : Prop := v.kind ≠ .override ∧ v.WellShaped

/-- A variable that a `for` declares is a local one. -/
def ForInitializer.WellShaped : ForInitializer → Prop
  | .variable v => v.Local
  | .simple s => s.WellShaped

/-- The clause is the default of its switch. -/
def Clause.isDefault : Clause → Bool
  | .case .. => false
  | .default .. => true

mutual

/-- Variables are local ones, and every part can be written. -/
def Statement.WellShaped : Statement → Prop
  | .variable v => v.Local
  | .simple s => s.WellShaped
  | .return value _ => ∀ e ∈ value, e.WellShaped
  | .break _ | .continue _ | .discard _ => True
  | .breakIf condition _ | .assertion condition _ => condition.WellShaped
  | .compound attributes form _ => attributesWellShaped attributes ∧ form.WellShaped

/-- A `switch` has at most one default. -/
def CompoundStatement.WellShaped : CompoundStatement → Prop
  | .block statements => statementsWellShaped statements
  | .if condition body alternatives otherwise =>
    condition.WellShaped ∧ statementsWellShaped body ∧ alternativesWellShaped alternatives ∧
      optionalWellShaped otherwise
  | .switch selector clauses =>
    selector.WellShaped ∧ clauses.countP Clause.isDefault ≤ 1 ∧ clausesWellShaped clauses
  | .for initializer condition update body =>
    (∀ i ∈ initializer, i.WellShaped) ∧ (∀ e ∈ condition, e.WellShaped) ∧
      (∀ s ∈ update, s.WellShaped) ∧ statementsWellShaped body
  | .while condition body => condition.WellShaped ∧ statementsWellShaped body
  | .loop body continuing => statementsWellShaped body ∧ optionalWellShaped continuing

/-- The condition and the body of an `else if` can be written. -/
def Alternative.WellShaped : Alternative → Prop
  | ⟨condition, body, _⟩ => condition.WellShaped ∧ statementsWellShaped body

/-- A case has a selector. -/
def Clause.WellShaped : Clause → Prop
  | .case selectors body _ =>
    selectors ≠ [] ∧ expressionsWellShaped selectors ∧ statementsWellShaped body
  | .default body _ => statementsWellShaped body

/-- Every statement of a body can be written. -/
def statementsWellShaped : List Statement → Prop
  | [] => True
  | s :: ss => s.WellShaped ∧ statementsWellShaped ss

/-- Every `else if` can be written. -/
def alternativesWellShaped : List Alternative → Prop
  | [] => True
  | a :: as => a.WellShaped ∧ alternativesWellShaped as

/-- Every clause of a `switch` can be written. -/
def clausesWellShaped : List Clause → Prop
  | [] => True
  | c :: cs => c.WellShaped ∧ clausesWellShaped cs

/-- A body can be written, if there is one. -/
def optionalWellShaped : Option (List Statement) → Prop
  | none => True
  | some body => statementsWellShaped body

end

/-! ## Declarations -/

/-- The attributes and the type of a parameter or member can be written. -/
def Binding.WellShaped (b : Binding) : Prop := attributesWellShaped b.attributes ∧ b.type.WellShaped

/-- The attributes of a result stand before its type, which has none of its own. -/
def FunctionResult.WellShaped (r : FunctionResult) : Prop :=
  attributesWellShaped r.attributes ∧ r.type.attributes = [] ∧ r.type.WellShaped

/-- Every part of a function can be written. -/
structure Function.WellShaped (f : Function) : Prop where
  parameters : ∀ b ∈ f.parameters, b.WellShaped
  result : ∀ r ∈ f.result, r.WellShaped
  body : statementsWellShaped f.body

/-- Every part of what is declared can be written. -/
def Item.WellShaped : Item → Prop
  | .enable .. => True
  | .alias _ type _ => type.WellShaped
  | .struct _ members _ => ∀ b ∈ members, b.WellShaped
  | .function f => f.WellShaped
  | .variable v => v.WellShaped
  | .assertion condition _ => condition.WellShaped

/-- The attributes of a declaration, and what it declares, can be written. -/
def Declaration.WellShaped (d : Declaration) : Prop :=
  attributesWellShaped d.attributes ∧ d.item.WellShaped

end Wgsl
