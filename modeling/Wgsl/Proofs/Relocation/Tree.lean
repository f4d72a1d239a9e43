import Mathlib.Data.List.Basic
import Wgsl.Module

/-!
# Trees at other locations

`relocate f` changes every location of a tree by `f`, and of an error its one, and leaves all else.
Two changes one behind the other are one (`relocate_relocate`); the tree that is made of a chain of
operations is made in the same way wherever they stand (`Expression.ofChain_relocate`).
-/

namespace Wgsl

/-! ## Tokens and errors -/

/-- The token at another location. -/
def Token.relocate (f : Location → Location) (t : Token) : Token := ⟨t.kind, f t.location⟩

/-- The error at another location. -/
def ParseError.relocate (f : Location → Location) : ParseError → ParseError
  | .lexical fault text l => .lexical fault text (f l)
  | .unexpected expected found l => .unexpected expected found (f l)
  | .bitcastArguments count l => .bitcastArguments count (f l)
  | .unsupported construct l => .unsupported construct (f l)

/-! ## Expressions, types and attributes -/

mutual

/-- The expression, with every location changed. -/
@[simp] def Expression.relocate (f : Location → Location) : Expression → Expression
  | .literal spelling kind l => .literal spelling kind (f l)
  | .identifier n l => .identifier n (f l)
  | .unary op operand l => .unary op (operand.relocate f) (f l)
  | .binary op left right l => .binary op (left.relocate f) (right.relocate f) (f l)
  | .logical op left right l => .logical op (left.relocate f) (right.relocate f) (f l)
  | .member object n l => .member (object.relocate f) n (f l)
  | .index object index l => .index (object.relocate f) (index.relocate f) (f l)
  | .call callee arguments l => .call callee (relocateExpressions f arguments) (f l)
  | .construct type arguments l =>
    .construct (type.relocate f) (relocateExpressions f arguments) (f l)
  | .bitcast target value l => .bitcast (target.relocate f) (value.relocate f) (f l)
  | .grouped inner l => .grouped (inner.relocate f) (f l)

/-- The type, with every location changed. -/
@[simp] def TypeSpecifier.relocate (f : Location → Location) : TypeSpecifier → TypeSpecifier
  | ⟨attributes, n, parameters, l⟩ =>
    ⟨relocateAttributes f attributes, n, parameters.relocate f, f l⟩

/-- The parameters of a type, with every location changed. -/
@[simp] def TypeParameters.relocate (f : Location → Location) : TypeParameters → TypeParameters
  | .none => .none
  | .pointer storageClass target accessMode =>
    .pointer storageClass (target.relocate f) accessMode
  | .element type accessMode => .element (type.relocate f) accessMode
  | .counted type count => .counted (type.relocate f) (count.relocate f)

/-- The attribute, with every location changed. -/
@[simp] def Attribute.relocate (f : Location → Location) : Attribute → Attribute
  | ⟨n, arguments, l⟩ => ⟨n, relocateExpressions f arguments, f l⟩

/-- Every attribute, relocated. -/
@[simp] def relocateAttributes (f : Location → Location) : List Attribute → List Attribute
  | [] => []
  | a :: as => a.relocate f :: relocateAttributes f as

/-- Every expression of a list, relocated. -/
@[simp] def relocateExpressions (f : Location → Location) : List Expression → List Expression
  | [] => []
  | e :: es => e.relocate f :: relocateExpressions f es

end

variable {f g : Location → Location}

mutual

/-- Two changes of an expression's locations are one. -/
theorem Expression.relocate_relocate : (e : Expression) →
    (e.relocate f).relocate g = e.relocate (g ∘ f)
  | .literal .. | .identifier .. => by simp
  | .unary _ operand _ => by simp [operand.relocate_relocate]
  | .binary _ left right _ | .logical _ left right _ => by
    simp [left.relocate_relocate, right.relocate_relocate]
  | .member object _ _ => by simp [object.relocate_relocate]
  | .index object index _ => by simp [object.relocate_relocate, index.relocate_relocate]
  | .call _ arguments _ => by simp [relocateExpressions_relocateExpressions arguments]
  | .construct type arguments _ => by
    simp [type.relocate_relocate, relocateExpressions_relocateExpressions arguments]
  | .bitcast target value _ => by simp [target.relocate_relocate, value.relocate_relocate]
  | .grouped inner _ => by simp [inner.relocate_relocate]

/-- Relocating a tree twice is relocating it once by both. -/
theorem TypeSpecifier.relocate_relocate : (t : TypeSpecifier) →
    (t.relocate f).relocate g = t.relocate (g ∘ f)
  | ⟨attributes, _, parameters, _⟩ => by
    simp [relocateAttributes_relocateAttributes attributes, parameters.relocate_relocate]

theorem TypeParameters.relocate_relocate : (p : TypeParameters) →
    (p.relocate f).relocate g = p.relocate (g ∘ f)
  | .none => by simp
  | .pointer _ target _ => by simp [target.relocate_relocate]
  | .element type _ => by simp [type.relocate_relocate]
  | .counted type count => by simp [type.relocate_relocate, count.relocate_relocate]

theorem Attribute.relocate_relocate : (a : Attribute) →
    (a.relocate f).relocate g = a.relocate (g ∘ f)
  | ⟨_, arguments, _⟩ => by simp [relocateExpressions_relocateExpressions arguments]

private theorem relocateAttributes_relocateAttributes : (as : List Attribute) →
    relocateAttributes g (relocateAttributes f as) = relocateAttributes (g ∘ f) as
  | [] => by simp
  | a :: as => by simp [a.relocate_relocate, relocateAttributes_relocateAttributes as]

private theorem relocateExpressions_relocateExpressions : (es : List Expression) →
    relocateExpressions g (relocateExpressions f es) = relocateExpressions (g ∘ f) es
  | [] => by simp
  | e :: es => by simp [e.relocate_relocate, relocateExpressions_relocateExpressions es]

end

namespace Expression

/-- A condition loses the same parentheses wherever it stands. -/
theorem withoutParentheses_relocate (e : Expression) :
    (e.relocate f).withoutParentheses = e.withoutParentheses.relocate f := by
  cases e <;> simp [withoutParentheses]

/-- Two operands are joined alike wherever they stand. -/
theorem join_relocate (op : InfixOperator) (left right : Expression) (l : Location) :
    join op (left.relocate f) (right.relocate f) (f l) = (join op left right l).relocate f := by
  cases op <;> simp [join]

end Expression

/-- Whether a type is `bitcast`, and of which target, does not depend on locations. -/
theorem TypeSpecifier.bitcastTarget?_relocate (t : TypeSpecifier) :
    (t.relocate f).bitcastTarget? = t.bitcastTarget?.map (TypeSpecifier.relocate f) := by
  obtain ⟨attributes, name, parameters, l⟩ := t
  by_cases hname : name = "bitcast"
  · cases parameters <;> simp [hname, bitcastTarget?, inner?, TypeParameters.type?]
  · simp [hname, bitcastTarget?]

/-- As many arguments as before. -/
theorem length_relocateExpressions (es : List Expression) :
    (relocateExpressions f es).length = es.length := by
  induction es with
  | nil => rfl
  | cons e es ih => simp [ih]

/-- Attributes are there or not as before. -/
theorem isEmpty_relocateAttributes (as : List Attribute) :
    (relocateAttributes f as).isEmpty = as.isEmpty := by
  cases as <;> simp

/-! ## Chains -/

/-- An operator and its right operand, relocated. -/
def Operation.relocate (f : Location → Location) (o : Operation) : Operation :=
  ⟨o.op, f o.location, o.operand.relocate f⟩

/-- The tree of a chain is made alike wherever the operations stand. -/
theorem Expression.ofChain_relocate (first : Expression) (chain : List Operation) :
    Expression.ofChain (first.relocate f) (chain.map (Operation.relocate f)) =
      (Expression.ofChain first chain).relocate f :=
  ofChain_map (relocate f) (Operation.relocate f) (fun _ => rfl) (fun _ => rfl)
    (fun o left right => (join_relocate o.op left right o.location).symm) first chain

/-! ## Variables and statements -/

/-- The variable, with every location changed. -/
@[simp] def Variable.relocate (f : Location → Location) (v : Variable) : Variable :=
  ⟨v.kind, v.storage, v.name, v.type.map (TypeSpecifier.relocate f),
    v.initializer.map (Expression.relocate f), f v.location⟩

/-- The statement, with every location changed. -/
@[simp] def SimpleStatement.relocate (f : Location → Location) : SimpleStatement → SimpleStatement
  | .assign target op value l => .assign (target.relocate f) op (value.relocate f) (f l)
  | .step target op l => .step (target.relocate f) op (f l)
  | .call callee arguments l => .call callee (relocateExpressions f arguments) (f l)

/-- What a `for` does first, relocated. -/
@[simp] def ForInitializer.relocate (f : Location → Location) : ForInitializer → ForInitializer
  | .variable v => .variable (v.relocate f)
  | .simple s => .simple (s.relocate f)

mutual

/-- The statement, with every location changed, at any depth. -/
@[simp] def Statement.relocate (f : Location → Location) : Statement → Statement
  | .variable v => .variable (v.relocate f)
  | .simple s => .simple (s.relocate f)
  | .return value l => .return (value.map (Expression.relocate f)) (f l)
  | .break l => .break (f l)
  | .breakIf condition l => .breakIf (condition.relocate f) (f l)
  | .continue l => .continue (f l)
  | .discard l => .discard (f l)
  | .assertion condition l => .assertion (condition.relocate f) (f l)
  | .compound attributes form l =>
    .compound (relocateAttributes f attributes) (form.relocate f) (f l)

/-- The statement, with every location of its head and its bodies changed. -/
@[simp] def CompoundStatement.relocate (f : Location → Location) :
    CompoundStatement → CompoundStatement
  | .block statements => .block (relocateStatements f statements)
  | .if condition body alternatives otherwise =>
    .if (condition.relocate f) (relocateStatements f body) (relocateAlternatives f alternatives)
      (relocateOptional f otherwise)
  | .switch selector clauses => .switch (selector.relocate f) (relocateClauses f clauses)
  | .for initializer condition update body =>
    .for (initializer.map (ForInitializer.relocate f)) (condition.map (Expression.relocate f))
      (update.map (SimpleStatement.relocate f)) (relocateStatements f body)
  | .while condition body => .while (condition.relocate f) (relocateStatements f body)
  | .loop body continuing => .loop (relocateStatements f body) (relocateOptional f continuing)

/-- The `else if`, relocated. -/
@[simp] def Alternative.relocate (f : Location → Location) : Alternative → Alternative
  | ⟨condition, body, l⟩ => ⟨condition.relocate f, relocateStatements f body, f l⟩

/-- The clause, relocated. -/
@[simp] def Clause.relocate (f : Location → Location) : Clause → Clause
  | .case selectors body l =>
    .case (relocateExpressions f selectors) (relocateStatements f body) (f l)
  | .default body l => .default (relocateStatements f body) (f l)

/-- Every statement of a body, relocated. -/
@[simp] def relocateStatements (f : Location → Location) : List Statement → List Statement
  | [] => []
  | s :: ss => s.relocate f :: relocateStatements f ss

/-- Every `else if`, relocated. -/
@[simp] def relocateAlternatives (f : Location → Location) : List Alternative → List Alternative
  | [] => []
  | a :: as => a.relocate f :: relocateAlternatives f as

/-- Every clause of a `switch`, relocated. -/
@[simp] def relocateClauses (f : Location → Location) : List Clause → List Clause
  | [] => []
  | c :: cs => c.relocate f :: relocateClauses f cs

/-- A body that may be missing, relocated. -/
@[simp] def relocateOptional (f : Location → Location) :
    Option (List Statement) → Option (List Statement)
  | none => none
  | some body => some (relocateStatements f body)

end

private theorem Expression.map_relocate_map_relocate (e : Option Expression) :
    (e.map (Expression.relocate f)).map (Expression.relocate g) =
      e.map (Expression.relocate (g ∘ f)) := by
  cases e <;> simp [Expression.relocate_relocate]

theorem Variable.relocate_relocate (v : Variable) :
    (v.relocate f).relocate g = v.relocate (g ∘ f) := by
  have htype : (v.type.map (TypeSpecifier.relocate f)).map (TypeSpecifier.relocate g) =
      v.type.map (TypeSpecifier.relocate (g ∘ f)) := by
    cases v.type <;> simp [TypeSpecifier.relocate_relocate]
  rw [relocate, relocate, relocate, htype, Expression.map_relocate_map_relocate]
  rfl

theorem SimpleStatement.relocate_relocate (s : SimpleStatement) :
    (s.relocate f).relocate g = s.relocate (g ∘ f) := by
  cases s <;> simp [Expression.relocate_relocate, relocateExpressions_relocateExpressions]

theorem ForInitializer.relocate_relocate : (i : ForInitializer) →
    (i.relocate f).relocate g = i.relocate (g ∘ f)
  | .variable v => by rw [relocate, relocate, relocate, v.relocate_relocate]
  | .simple s => by rw [relocate, relocate, relocate, s.relocate_relocate]

mutual

/-- Two changes of a statement's locations are one. -/
theorem Statement.relocate_relocate : (s : Statement) →
    (s.relocate f).relocate g = s.relocate (g ∘ f)
  | .variable v => by
    rw [Statement.relocate, Statement.relocate, Statement.relocate, v.relocate_relocate]
  | .simple s => by
    rw [Statement.relocate, Statement.relocate, Statement.relocate, s.relocate_relocate]
  | .return value _ => by cases value <;> simp only [Statement.relocate, Option.map_none,
    Function.comp_apply, Option.map_some, Expression.relocate_relocate]
  | .break _ | .continue _ | .discard _ => by simp
  | .breakIf condition _ | .assertion condition _ => by simp [condition.relocate_relocate]
  | .compound attributes form _ => by
    simp [relocateAttributes_relocateAttributes attributes, form.relocate_relocate]

/-- Relocating a statement twice is relocating it once by both. -/
theorem CompoundStatement.relocate_relocate : (s : CompoundStatement) →
    (s.relocate f).relocate g = s.relocate (g ∘ f)
  | .block statements => by simp [relocateStatements_relocateStatements statements]
  | .if condition body alternatives otherwise => by
    simp [condition.relocate_relocate, relocateStatements_relocateStatements body,
      relocateAlternatives_relocateAlternatives alternatives,
      relocateOptional_relocateOptional otherwise]
  | .switch selector clauses => by
    simp [selector.relocate_relocate, relocateClauses_relocateClauses clauses]
  | .for initializer condition update body => by
    have hinitializer : (initializer.map (ForInitializer.relocate f)).map
        (ForInitializer.relocate g) = initializer.map (ForInitializer.relocate (g ∘ f)) := by
      cases initializer with
      | none => rfl
      | some i => rw [Option.map_some, Option.map_some, i.relocate_relocate, Option.map_some]
    have hupdate : (update.map (SimpleStatement.relocate f)).map (SimpleStatement.relocate g) =
        update.map (SimpleStatement.relocate (g ∘ f)) := by
      cases update with
      | none => rfl
      | some s => rw [Option.map_some, Option.map_some, s.relocate_relocate, Option.map_some]
    rw [CompoundStatement.relocate, CompoundStatement.relocate, CompoundStatement.relocate,
      hinitializer, hupdate, Expression.map_relocate_map_relocate,
      relocateStatements_relocateStatements body]
  | .while condition body => by
    simp [condition.relocate_relocate, relocateStatements_relocateStatements body]
  | .loop body continuing => by
    simp [relocateStatements_relocateStatements body, relocateOptional_relocateOptional continuing]

theorem Alternative.relocate_relocate : (a : Alternative) →
    (a.relocate f).relocate g = a.relocate (g ∘ f)
  | ⟨condition, body, _⟩ => by
    simp [condition.relocate_relocate, relocateStatements_relocateStatements body]

theorem Clause.relocate_relocate : (c : Clause) → (c.relocate f).relocate g = c.relocate (g ∘ f)
  | .case selectors body _ => by
    simp [relocateExpressions_relocateExpressions selectors,
      relocateStatements_relocateStatements body]
  | .default body _ => by simp [relocateStatements_relocateStatements body]

private theorem relocateStatements_relocateStatements : (ss : List Statement) →
    relocateStatements g (relocateStatements f ss) = relocateStatements (g ∘ f) ss
  | [] => by simp
  | s :: ss => by simp [s.relocate_relocate, relocateStatements_relocateStatements ss]

private theorem relocateAlternatives_relocateAlternatives : (as : List Alternative) →
    relocateAlternatives g (relocateAlternatives f as) = relocateAlternatives (g ∘ f) as
  | [] => by simp
  | a :: as => by simp [a.relocate_relocate, relocateAlternatives_relocateAlternatives as]

private theorem relocateClauses_relocateClauses : (cs : List Clause) →
    relocateClauses g (relocateClauses f cs) = relocateClauses (g ∘ f) cs
  | [] => by simp
  | c :: cs => by simp [c.relocate_relocate, relocateClauses_relocateClauses cs]

private theorem relocateOptional_relocateOptional : (o : Option (List Statement)) →
    relocateOptional g (relocateOptional f o) = relocateOptional (g ∘ f) o
  | none => by simp
  | some body => by simp [relocateStatements_relocateStatements body]

end

/-! ## Declarations -/

/-- The parameter or member, with every location changed. -/
@[simp] def Binding.relocate (f : Location → Location) (b : Binding) : Binding :=
  ⟨relocateAttributes f b.attributes, b.name, b.type.relocate f, f b.location⟩

/-- The result, with every location changed. -/
@[simp] def FunctionResult.relocate (f : Location → Location) (r : FunctionResult) :
    FunctionResult :=
  ⟨relocateAttributes f r.attributes, r.type.relocate f⟩

/-- The function, with every location changed. -/
@[simp] def Function.relocate (f : Location → Location) (fn : Function) : Function :=
  ⟨fn.name, fn.parameters.map (Binding.relocate f), fn.result.map (FunctionResult.relocate f),
    relocateStatements f fn.body, f fn.location⟩

/-- What is declared, with every location changed. -/
@[simp] def Item.relocate (f : Location → Location) : Item → Item
  | .enable n additional l => .enable n additional (f l)
  | .alias n type l => .alias n (type.relocate f) (f l)
  | .struct n members l => .struct n (members.map (Binding.relocate f)) (f l)
  | .function fn => .function (fn.relocate f)
  | .variable v => .variable (v.relocate f)
  | .assertion condition l => .assertion (condition.relocate f) (f l)

/-- The declaration, with every location changed. -/
@[simp] def Declaration.relocate (f : Location → Location) (d : Declaration) : Declaration :=
  ⟨relocateAttributes f d.attributes, d.item.relocate f⟩

private theorem Binding.map_relocate_map_relocate (bs : List Binding) :
    (bs.map (Binding.relocate f)).map (Binding.relocate g) = bs.map (Binding.relocate (g ∘ f)) := by
  simp [relocateAttributes_relocateAttributes, TypeSpecifier.relocate_relocate]

theorem Function.relocate_relocate (fn : Function) :
    (fn.relocate f).relocate g = fn.relocate (g ∘ f) := by
  have hresult : (fn.result.map (FunctionResult.relocate f)).map (FunctionResult.relocate g) =
      fn.result.map (FunctionResult.relocate (g ∘ f)) := by
    cases fn.result <;>
      simp [relocateAttributes_relocateAttributes, TypeSpecifier.relocate_relocate]
  rw [relocate, relocate, relocate, Binding.map_relocate_map_relocate, hresult,
    relocateStatements_relocateStatements]
  rfl

theorem Item.relocate_relocate : (i : Item) → (i.relocate f).relocate g = i.relocate (g ∘ f)
  | .enable .. => rfl
  | .alias _ type _ => by simp [type.relocate_relocate]
  | .struct _ members _ => by
    rw [relocate, relocate, relocate, Binding.map_relocate_map_relocate]
    rfl
  | .function fn => by rw [relocate, relocate, relocate, fn.relocate_relocate]
  | .variable v => by rw [relocate, relocate, relocate, v.relocate_relocate]
  | .assertion condition _ => by simp [condition.relocate_relocate]

/-- Two changes of a declaration's locations are one. -/
theorem Declaration.relocate_relocate (d : Declaration) :
    (d.relocate f).relocate g = d.relocate (g ∘ f) := by
  rw [relocate, relocate, relocate, relocateAttributes_relocateAttributes, d.item.relocate_relocate]

end Wgsl
