import Mathlib.Data.List.Basic
import Wgsl.Tree.Chain
import Wgsl.Tree.Declaration

/-!
# Trees without their parentheses

`ungrouped` takes every parenthesis node out of a tree, at any depth, and leaves all else: names,
literals, operators, the order of things and every location.

A call that stands as a statement is known by its own location, the one where the statement begins
(`callLocations`). That is where a tree without parentheses still shows that the call was in
parentheses: it is then the location of a `(` token.
-/

namespace Wgsl

/-! ## Expressions, types and attributes -/

mutual

/-- The expression without parenthesis nodes: what stands in them stays, at its own location. -/
@[simp] def Expression.ungrouped : Expression → Expression
  | .literal spelling kind l => .literal spelling kind l
  | .identifier n l => .identifier n l
  | .unary op operand l => .unary op operand.ungrouped l
  | .binary op left right l => .binary op left.ungrouped right.ungrouped l
  | .logical op left right l => .logical op left.ungrouped right.ungrouped l
  | .member object n l => .member object.ungrouped n l
  | .index object index l => .index object.ungrouped index.ungrouped l
  | .call callee arguments l => .call callee (expressionsUngrouped arguments) l
  | .construct type arguments l => .construct type.ungrouped (expressionsUngrouped arguments) l
  | .bitcast target value l => .bitcast target.ungrouped value.ungrouped l
  | .grouped inner _ => inner.ungrouped

/-- The type, with no parentheses around a count or in what its attributes are given. -/
@[simp] def TypeSpecifier.ungrouped : TypeSpecifier → TypeSpecifier
  | ⟨attributes, n, parameters, l⟩ => ⟨attributesUngrouped attributes, n, parameters.ungrouped, l⟩

/-- The parameters, with no parentheses in a number of elements. -/
@[simp] def TypeParameters.ungrouped : TypeParameters → TypeParameters
  | .none => .none
  | .pointer storageClass target accessMode => .pointer storageClass target.ungrouped accessMode
  | .element type accessMode => .element type.ungrouped accessMode
  | .counted type count => .counted type.ungrouped count.ungrouped

/-- The attribute, with no parentheses around what it is given. -/
@[simp] def Attribute.ungrouped : Attribute → Attribute
  | ⟨n, arguments, l⟩ => ⟨n, expressionsUngrouped arguments, l⟩

/-- Every attribute without its parentheses. -/
@[simp] def attributesUngrouped : List Attribute → List Attribute
  | [] => []
  | a :: as => a.ungrouped :: attributesUngrouped as

/-- Every expression of a list without its parentheses. -/
@[simp] def expressionsUngrouped : List Expression → List Expression
  | [] => []
  | e :: es => e.ungrouped :: expressionsUngrouped es

end

/-- The outermost node is a pair of parentheses. -/
@[simp] def Expression.IsGrouped : Expression → Prop
  | .grouped .. => True
  | _ => False

namespace Expression

/-- Only parentheses are lost at the top. -/
theorem ungrouped_withoutParentheses (e : Expression) :
    e.withoutParentheses.ungrouped = e.ungrouped := by
  cases e with
  | grouped => rw [withoutParentheses, ungrouped]
  | _ => rfl

/-- No parentheses are left at the top. -/
theorem not_isGrouped_ungrouped : (e : Expression) → ¬e.ungrouped.IsGrouped
  | .grouped inner _ => by
    rw [ungrouped]
    exact not_isGrouped_ungrouped inner
  | .literal .. | .identifier .. | .unary .. | .binary .. | .logical .. | .member .. | .index ..
  | .call .. | .construct .. | .bitcast .. => by
    rw [ungrouped]
    exact id

/-- A condition in a tree without parentheses has none to lose. -/
theorem withoutParentheses_ungrouped (e : Expression) :
    e.ungrouped.withoutParentheses = e.ungrouped := by
  have h := e.not_isGrouped_ungrouped
  cases hu : e.ungrouped with
  | grouped => simp [hu, IsGrouped] at h
  | _ => rfl

/-- Operands lose their parentheses one by one. -/
theorem ungrouped_join (op : InfixOperator) (left right : Expression) (l : Location) :
    (join op left right l).ungrouped = join op left.ungrouped right.ungrouped l := by
  cases op with
  | binary op => rw [join, ungrouped, join]
  | logical op => rw [join, ungrouped, join]

end Expression

/-! ## Chains -/

/-- An operator and its right operand, which loses its parentheses. -/
def Operation.ungrouped (o : Operation) : Operation := ⟨o.op, o.location, o.operand.ungrouped⟩

/-- The tree of a chain is made alike with parentheses and without. -/
theorem Expression.ofChain_ungrouped (first : Expression) (chain : List Operation) :
    Expression.ofChain first.ungrouped (chain.map Operation.ungrouped) =
      (Expression.ofChain first chain).ungrouped :=
  ofChain_map ungrouped Operation.ungrouped (fun _ => rfl) (fun _ => rfl)
    (fun o left right => ungrouped_join o.op left right o.location) first chain

/-! ## Variables and statements -/

/-- The variable, its type and its value without parentheses. -/
@[simp] def Variable.ungrouped (v : Variable) : Variable :=
  ⟨v.kind, v.storage, v.name, v.type.map TypeSpecifier.ungrouped,
    v.initializer.map Expression.ungrouped, v.location⟩

/-- The statement, its target, value or arguments without parentheses. -/
@[simp] def SimpleStatement.ungrouped : SimpleStatement → SimpleStatement
  | .assign target op value l => .assign target.ungrouped op value.ungrouped l
  | .step target op l => .step target.ungrouped op l
  | .call callee arguments l => .call callee (expressionsUngrouped arguments) l

/-- What a `for` does first, without parentheses. -/
@[simp] def ForInitializer.ungrouped : ForInitializer → ForInitializer
  | .variable v => .variable v.ungrouped
  | .simple s => .simple s.ungrouped

mutual

/-- The statement without parentheses, at any depth. -/
@[simp] def Statement.ungrouped : Statement → Statement
  | .variable v => .variable v.ungrouped
  | .simple s => .simple s.ungrouped
  | .return value l => .return (value.map Expression.ungrouped) l
  | .break l => .break l
  | .breakIf condition l => .breakIf condition.ungrouped l
  | .continue l => .continue l
  | .discard l => .discard l
  | .assertion condition l => .assertion condition.ungrouped l
  | .compound attributes form l => .compound (attributesUngrouped attributes) form.ungrouped l

/-- The statement without parentheses in its head and its bodies. -/
@[simp] def CompoundStatement.ungrouped : CompoundStatement → CompoundStatement
  | .block statements => .block (statementsUngrouped statements)
  | .if condition body alternatives otherwise =>
    .if condition.ungrouped (statementsUngrouped body) (alternativesUngrouped alternatives)
      (optionalUngrouped otherwise)
  | .switch selector clauses => .switch selector.ungrouped (clausesUngrouped clauses)
  | .for initializer condition update body =>
    .for (initializer.map ForInitializer.ungrouped) (condition.map Expression.ungrouped)
      (update.map SimpleStatement.ungrouped) (statementsUngrouped body)
  | .while condition body => .while condition.ungrouped (statementsUngrouped body)
  | .loop body continuing => .loop (statementsUngrouped body) (optionalUngrouped continuing)

/-- The `else if` without parentheses. -/
@[simp] def Alternative.ungrouped : Alternative → Alternative
  | ⟨condition, body, l⟩ => ⟨condition.ungrouped, statementsUngrouped body, l⟩

/-- The clause, its selectors and its body without parentheses. -/
@[simp] def Clause.ungrouped : Clause → Clause
  | .case selectors body l => .case (expressionsUngrouped selectors) (statementsUngrouped body) l
  | .default body l => .default (statementsUngrouped body) l

/-- Every statement of a body without its parentheses. -/
@[simp] def statementsUngrouped : List Statement → List Statement
  | [] => []
  | s :: ss => s.ungrouped :: statementsUngrouped ss

/-- Every `else if` without its parentheses. -/
@[simp] def alternativesUngrouped : List Alternative → List Alternative
  | [] => []
  | a :: as => a.ungrouped :: alternativesUngrouped as

/-- Every clause of a `switch` without its parentheses. -/
@[simp] def clausesUngrouped : List Clause → List Clause
  | [] => []
  | c :: cs => c.ungrouped :: clausesUngrouped cs

/-- A body that may be missing, without parentheses. -/
@[simp] def optionalUngrouped : Option (List Statement) → Option (List Statement)
  | none => none
  | some body => some (statementsUngrouped body)

end

/-! ## Declarations -/

/-- The parameter or member without parentheses in its attributes and its type. -/
@[simp] def Binding.ungrouped (b : Binding) : Binding :=
  ⟨attributesUngrouped b.attributes, b.name, b.type.ungrouped, b.location⟩

/-- The result without parentheses in its attributes and its type. -/
@[simp] def FunctionResult.ungrouped (r : FunctionResult) : FunctionResult :=
  ⟨attributesUngrouped r.attributes, r.type.ungrouped⟩

/-- The function without parentheses, from its parameters to its body. -/
@[simp] def Function.ungrouped (f : Function) : Function :=
  ⟨f.name, f.parameters.map Binding.ungrouped, f.result.map FunctionResult.ungrouped,
    statementsUngrouped f.body, f.location⟩

/-- What is declared, without parentheses. -/
@[simp] def Item.ungrouped : Item → Item
  | .enable n additional l => .enable n additional l
  | .alias n type l => .alias n type.ungrouped l
  | .struct n members l => .struct n (members.map Binding.ungrouped) l
  | .function f => .function f.ungrouped
  | .variable v => .variable v.ungrouped
  | .assertion condition l => .assertion condition.ungrouped l

/-- The declaration without parentheses. -/
@[simp] def Declaration.ungrouped (d : Declaration) : Declaration :=
  ⟨attributesUngrouped d.attributes, d.item.ungrouped⟩

/-! ## Calls that are statements -/

/-- Where the statement stands, if it is a call. -/
@[simp] def SimpleStatement.callLocations : SimpleStatement → List Location
  | .call _ _ l => [l]
  | _ => []

/-- Where a `for` calls a function first, if it does. -/
@[simp] def ForInitializer.callLocations : ForInitializer → List Location
  | .variable _ => []
  | .simple s => s.callLocations

mutual

/-- The locations of the calls that are statements, at any depth. -/
@[simp] def Statement.callLocations : Statement → List Location
  | .simple s => s.callLocations
  | .compound _ form _ => form.callLocations
  | _ => []

/-- Those of its bodies, and of what a `for` does first and after a round. -/
@[simp] def CompoundStatement.callLocations : CompoundStatement → List Location
  | .block statements => statementsCallLocations statements
  | .if _ body alternatives otherwise =>
    statementsCallLocations body ++ alternativesCallLocations alternatives ++
      optionalCallLocations otherwise
  | .switch _ clauses => clausesCallLocations clauses
  | .for initializer _ update body =>
    (initializer.elim [] ForInitializer.callLocations) ++
      (update.elim [] SimpleStatement.callLocations) ++ statementsCallLocations body
  | .while _ body => statementsCallLocations body
  | .loop body continuing => statementsCallLocations body ++ optionalCallLocations continuing

/-- Those of the body behind `else if`. -/
@[simp] def Alternative.callLocations : Alternative → List Location
  | ⟨_, body, _⟩ => statementsCallLocations body

/-- Those of the clause's body. -/
@[simp] def Clause.callLocations : Clause → List Location
  | .case _ body _ | .default body _ => statementsCallLocations body

/-- Those of a body, in source order. -/
@[simp] def statementsCallLocations : List Statement → List Location
  | [] => []
  | s :: ss => s.callLocations ++ statementsCallLocations ss

/-- Those of the bodies behind `else if`, in source order. -/
@[simp] def alternativesCallLocations : List Alternative → List Location
  | [] => []
  | a :: as => a.callLocations ++ alternativesCallLocations as

/-- Those of a `switch`, clause by clause. -/
@[simp] def clausesCallLocations : List Clause → List Location
  | [] => []
  | c :: cs => c.callLocations ++ clausesCallLocations cs

/-- Those of a body that may be missing. -/
@[simp] def optionalCallLocations : Option (List Statement) → List Location
  | none => []
  | some body => statementsCallLocations body

end

/-- Those of the function's body. -/
@[simp] def Function.callLocations (f : Function) : List Location := statementsCallLocations f.body

/-- Only functions have statements. -/
@[simp] def Item.callLocations : Item → List Location
  | .function f => f.callLocations
  | _ => []

/-- Those of what is declared. -/
@[simp] def Declaration.callLocations (d : Declaration) : List Location := d.item.callLocations

end Wgsl
