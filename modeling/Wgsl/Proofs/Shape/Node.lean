import Wgsl.Tree.Chain
import Wgsl.Tree.Declaration
import Wgsl.Proofs.Spelling.Shape

/-!
# The shape of nodes

What those who walk a tree may rely on, node by node: `Node.Shaped` says it of one node, with a look
at its own fields and no further down, and `Node.Occurs` says which nodes a tree has, at any depth.

Much is in the types already. An access mode of a variable stands beside a storage class, a
variable in a function body has no attributes, a `for` begins with a declaration, an assignment, a
step or a call, and the attributes of a result stand beside a type. `Shaped` says the rest, and
says the first again of the fields one by one.

A node is sound when it and all below it are shaped, so when it is shaped and its children are sound
(`Node.sound_iff`); each form of node has this as a lemma for `simp`.
-/

namespace Wgsl

/-- A node of a module. -/
inductive Node
  | expression (e : Expression)
  | type (t : TypeSpecifier)
  | attribute (a : Attribute)
  | variable (v : Variable)
  | simple (s : SimpleStatement)
  | forInitializer (i : ForInitializer)
  | statement (s : Statement)
  | compound (f : CompoundStatement)
  | alternative (a : Alternative)
  | clause (c : Clause)
  | binding (b : Binding)
  | result (r : FunctionResult)
  | function (f : Function)
  | item (i : Item)
  | declaration (d : Declaration)

namespace Node

/-- The nodes directly below a node. -/
@[simp] def children : Node → List Node
  | .expression (.literal ..) | .expression (.identifier ..) => []
  | .expression (.unary _ operand _) => [.expression operand]
  | .expression (.binary _ left right _) | .expression (.logical _ left right _) =>
    [.expression left, .expression right]
  | .expression (.member object _ _) => [.expression object]
  | .expression (.index object index _) => [.expression object, .expression index]
  | .expression (.call _ arguments _) => arguments.map .expression
  | .expression (.construct made arguments _) => .type made :: arguments.map .expression
  | .expression (.bitcast target value _) => [.type target, .expression value]
  | .expression (.grouped inner _) => [.expression inner]
  | .type t =>
    t.attributes.map .attribute ++ t.inner?.toList.map .type ++ t.count?.toList.map .expression
  | .attribute a => a.arguments.map .expression
  | .variable v => v.type.toList.map .type ++ v.initializer.toList.map .expression
  | .simple (.assign target _ value _) => [.expression target, .expression value]
  | .simple (.step target _ _) => [.expression target]
  | .simple (.call _ arguments _) => arguments.map .expression
  | .forInitializer (.variable v) => [.variable v]
  | .forInitializer (.simple s) => [.simple s]
  | .statement (.variable v) => [.variable v]
  | .statement (.simple s) => [.simple s]
  | .statement (.return value _) => value.toList.map .expression
  | .statement (.break _) | .statement (.continue _) | .statement (.discard _) => []
  | .statement (.breakIf condition _) | .statement (.assertion condition _) =>
    [.expression condition]
  | .statement (.compound attributes form _) => attributes.map .attribute ++ [.compound form]
  | .compound (.block body) => body.map .statement
  | .compound (.if condition body alternatives otherwise) =>
    .expression condition :: body.map .statement ++ alternatives.map .alternative ++
      (otherwise.getD []).map .statement
  | .compound (.switch selector clauses) => .expression selector :: clauses.map .clause
  | .compound (.for initializer condition update body) =>
    initializer.toList.map .forInitializer ++ condition.toList.map .expression ++
      update.toList.map .simple ++ body.map .statement
  | .compound (.while condition body) => .expression condition :: body.map .statement
  | .compound (.loop body continuing) =>
    body.map .statement ++ (continuing.getD []).map .statement
  | .alternative a => .expression a.condition :: a.body.map .statement
  | .clause (.case selectors body _) => selectors.map .expression ++ body.map .statement
  | .clause (.default body _) => body.map .statement
  | .binding b => b.attributes.map .attribute ++ [.type b.type]
  | .result r => r.attributes.map .attribute ++ [.type r.type]
  | .function f =>
    f.parameters.map .binding ++ f.result.toList.map .result ++ f.body.map .statement
  | .item (.enable ..) => []
  | .item (.alias _ t _) => [.type t]
  | .item (.struct _ members _) => members.map .binding
  | .item (.function f) => [.function f]
  | .item (.variable v) => [.variable v]
  | .item (.assertion condition _) => [.expression condition]
  | .declaration d => d.attributes.map .attribute ++ [.item d.item]

/-- A node is another one, or stands somewhere below it. -/
inductive Occurs (n : Node) : Node → Prop
  | here : Occurs n n
  | inside {m child : Node} (hchild : child ∈ m.children) (h : Occurs n child) : Occurs n m

/-- A node has a property, and all nodes below it have. -/
def Every (P : Node → Prop) (n : Node) : Prop := ∀ m : Node, m.Occurs n → P m

/-- All nodes below a node have a property. -/
def Below (P : Node → Prop) (n : Node) : Prop := ∀ child ∈ n.children, child.Every P

/-- Every node from one on: it, and those below it. -/
theorem every_iff {P : Node → Prop} {n : Node} : n.Every P ↔ P n ∧ n.Below P := by
  constructor
  · intro h
    exact ⟨h n .here, fun child hchild m hm => h m (.inside hchild hm)⟩
  · rintro ⟨hn, hchildren⟩ m hm
    cases hm with
    | here => exact hn
    | inside hchild hm => exact hchildren _ hchild m hm

/-! ### Chains -/

section Chain

variable {P : Node → Prop} {e : Expression}

/-- Every node from an operation on: it, and those in its operands. -/
theorem every_join {op : InfixOperator} {left right : Expression} {l : Location} :
    (Node.expression (.join op left right l)).Every P ↔
      P (.expression (.join op left right l)) ∧ (Node.expression left).Every P ∧
        (Node.expression right).Every P := by
  cases op <;> exact every_iff.trans (by simp [Expression.join, Below])

/-- Whatever the operands, the operation of an operator at a location has a property. -/
def JoinsAt (P : Node → Prop) (op : InfixOperator) (l : Location) : Prop :=
  ∀ left right, P (.expression (.join op left right l))

/-- The tree of a chain has a property throughout if its operands have, and operations do. -/
theorem every_ofChain {chain : List Operation} (he : (Node.expression e).Every P)
    (hchain : ∀ o ∈ chain, JoinsAt P o.op o.location ∧ (Node.expression o.operand).Every P) :
    (Node.expression (.ofChain e chain)).Every P :=
  climb_induction (P := fun e => (Node.expression e).Every P) he fun o ho =>
    ⟨(hchain o ho).2, fun _ _ hleft hright => every_join.2 ⟨(hchain o ho).1 _ _, hleft, hright⟩⟩

end Chain

end Node

/-! ## Shapes -/

/-- The parameters of a type agree with its name. Without parameters it has nothing; a pointer type
points somewhere and counts nothing; no other type has a storage class; a type has no more than a
number of elements or an access mode, and an array has no access mode. -/
structure TypeSpecifier.Shaped (t : TypeSpecifier) : Prop where
  bare : t.inner? = none → t.count? = none ∧ t.storageClass? = none ∧ t.accessMode? = none
  pointer : t.name = "ptr" → t.inner?.isSome → t.storageClass?.isSome ∧ t.count? = none
  other : t.name ≠ "ptr" → t.storageClass? = none
  single : t.count? = none ∨ t.accessMode? = none
  array : namesArray t.name → t.accessMode? = none

/-- A type with parameters can begin a value, unless it is a `bitcast`. -/
theorem TypeSpecifier.beginsValue_of_inner? {t : TypeSpecifier} (hattributes : t.attributes = [])
    (hinner : t.inner?.isSome) (hname : t.name ≠ "bitcast") : t.BeginsValue := by
  obtain ⟨attributes, name, parameters, l⟩ := t
  cases parameters with
  | none => exact absurd hinner nofun
  | pointer _ _ _ | element _ _ | counted _ _ => exact ⟨hattributes, hname⟩

/-- Where a variable lives. -/
def Variable.storageClass? (v : Variable) : Option String := v.storage.map (·.storageClass)

/-- What may be done with a variable there. -/
def Variable.accessMode? (v : Variable) : Option String := v.storage.bind (·.accessMode)

/-- A variable has a type or a value, a `let` and a `const` have a value, only a `var` has a storage
class, and only with one an access mode. -/
structure Variable.Shaped (v : Variable) : Prop where
  typeOrInitializer : v.type.isSome ∨ v.initializer.isSome
  initializer : v.kind = .let ∨ v.kind = .const → v.initializer.isSome
  storage : v.storageClass?.isSome → v.kind = .var
  access : v.accessMode?.isSome → v.storageClass?.isSome

/-- The attributes of what a function returns. -/
def Function.resultAttributes (f : Function) : List Attribute :=
  f.result.elim [] (·.attributes)

namespace Node

/-- The shape of a node, as far as it is not in its type. -/
@[simp] def Shaped : Node → Prop
  | .expression (.construct made _ _) => made.BeginsValue
  | .type t => t.Shaped
  | .variable v => v.Shaped
  | .statement (.variable v) => v.kind ≠ .override ∧ (Statement.variable v).attributes = []
  | .forInitializer (.variable v) => v.kind ≠ .override
  | .compound (.switch _ clauses) => clauses.countP (·.isDefault) ≤ 1
  | .clause (.case selectors _ _) => selectors ≠ []
  | .result r => r.type.attributes = []
  | .function f => f.resultAttributes ≠ [] → f.result.isSome
  | _ => True

/-- A node is shaped, and all nodes below it are. -/
def Sound (n : Node) : Prop := ∀ m : Node, m.Occurs n → m.Shaped

/-- A node is sound if it has its shape and its children are sound. -/
theorem sound_iff {n : Node} : n.Sound ↔ n.Shaped ∧ ∀ child ∈ n.children, child.Sound := every_iff

/-! ## Expressions, types and attributes -/

section Expression

variable {e e' : Expression} {es : List Expression} {t : TypeSpecifier} {name : String}
variable {attributes : List Attribute} {l : Location}

@[simp] theorem sound_literal {kind : LiteralKind} :
    (Node.expression (.literal name kind l)).Sound :=
  sound_iff.2 (by simp)

@[simp] theorem sound_identifier : (Node.expression (.identifier name l)).Sound :=
  sound_iff.2 (by simp)

@[simp] theorem sound_unary {op : UnaryOperator} :
    (Node.expression (.unary op e l)).Sound ↔ (Node.expression e).Sound :=
  sound_iff.trans (by simp)

@[simp] theorem sound_join {op : InfixOperator} :
    (Node.expression (.join op e e' l)).Sound ↔
      (Node.expression e).Sound ∧ (Node.expression e').Sound := by
  cases op <;> exact sound_iff.trans (by simp [Expression.join])

@[simp] theorem sound_member :
    (Node.expression (.member e name l)).Sound ↔ (Node.expression e).Sound :=
  sound_iff.trans (by simp)

@[simp] theorem sound_index :
    (Node.expression (.index e e' l)).Sound ↔
      (Node.expression e).Sound ∧ (Node.expression e').Sound :=
  sound_iff.trans (by simp)

@[simp] theorem sound_call :
    (Node.expression (.call name es l)).Sound ↔ ∀ e ∈ es, (Node.expression e).Sound :=
  sound_iff.trans (by simp)

@[simp] theorem sound_construct :
    (Node.expression (.construct t es l)).Sound ↔
      t.BeginsValue ∧ (Node.type t).Sound ∧ ∀ e ∈ es, (Node.expression e).Sound :=
  sound_iff.trans (by simp)

@[simp] theorem sound_bitcast :
    (Node.expression (.bitcast t e l)).Sound ↔ (Node.type t).Sound ∧ (Node.expression e).Sound :=
  sound_iff.trans (by simp)

@[simp] theorem sound_grouped :
    (Node.expression (.grouped e l)).Sound ↔ (Node.expression e).Sound :=
  sound_iff.trans (by simp)

@[simp] theorem sound_type_none :
    (Node.type ⟨attributes, name, .none, l⟩).Sound ↔
      ∀ a ∈ attributes, (Node.attribute a).Sound := by
  have hshaped : TypeSpecifier.Shaped ⟨attributes, name, .none, l⟩ :=
    ⟨fun _ => ⟨rfl, rfl, rfl⟩, fun _ => nofun, fun _ => rfl, .inl rfl, fun _ => rfl⟩
  exact sound_iff.trans (by
    simp [hshaped, TypeSpecifier.inner?, TypeParameters.type?, TypeSpecifier.count?])

/-- A pointer type is sound if its attributes and its target are. -/
theorem sound_type_pointer (hname : name = "ptr") {storageClass : String}
    {accessMode : Option String} :
    (Node.type ⟨attributes, name, .pointer storageClass t accessMode, l⟩).Sound ↔
      (∀ a ∈ attributes, (Node.attribute a).Sound) ∧ (Node.type t).Sound := by
  have hshaped : TypeSpecifier.Shaped ⟨attributes, name, .pointer storageClass t accessMode, l⟩ :=
    ⟨nofun, fun _ _ => ⟨rfl, rfl⟩, fun hne => absurd hname hne, .inl rfl,
      fun harray => by simp [hname, namesArray] at harray⟩
  exact sound_iff.trans (by
    simp [hshaped, TypeSpecifier.inner?, TypeParameters.type?, TypeSpecifier.count?, or_imp,
      forall_and])

/-- A type of elements is sound if its attributes and the type of its elements are; an array has no
access mode. -/
theorem sound_type_element (hname : name ≠ "ptr") {accessMode : Option String}
    (haccess : namesArray name → accessMode = none) :
    (Node.type ⟨attributes, name, .element t accessMode, l⟩).Sound ↔
      (∀ a ∈ attributes, (Node.attribute a).Sound) ∧ (Node.type t).Sound := by
  have hshaped : TypeSpecifier.Shaped ⟨attributes, name, .element t accessMode, l⟩ :=
    ⟨nofun, fun hptr => absurd hptr hname, fun _ => rfl, .inl rfl, haccess⟩
  exact sound_iff.trans (by
    simp [hshaped, TypeSpecifier.inner?, TypeParameters.type?, TypeSpecifier.count?, or_imp,
      forall_and])

/-- An array with a number of elements is sound if all its parts are. -/
theorem sound_type_counted (hname : name ≠ "ptr") :
    (Node.type ⟨attributes, name, .counted t e, l⟩).Sound ↔
      (∀ a ∈ attributes, (Node.attribute a).Sound) ∧ (Node.type t).Sound ∧
        (Node.expression e).Sound := by
  have hshaped : TypeSpecifier.Shaped ⟨attributes, name, .counted t e, l⟩ :=
    ⟨nofun, fun hptr => absurd hptr hname, fun _ => rfl, .inr rfl, fun _ => rfl⟩
  exact sound_iff.trans (by
    simp [hshaped, TypeSpecifier.inner?, TypeParameters.type?, TypeSpecifier.count?, or_imp,
      forall_and])

/-- What is inside a sound type is sound. -/
theorem Sound.inner {inner : TypeSpecifier} (h : (Node.type t).Sound)
    (hinner : t.inner? = some inner) : (Node.type inner).Sound :=
  (sound_iff.1 h).2 _ (by simp [hinner])

@[simp] theorem sound_attribute :
    (Node.attribute ⟨name, es, l⟩).Sound ↔ ∀ e ∈ es, (Node.expression e).Sound :=
  sound_iff.trans (by simp)

/-- Without its parentheses, a sound expression is sound. -/
theorem Sound.withoutParentheses (h : (Node.expression e).Sound) :
    (Node.expression e.withoutParentheses).Sound := by
  cases e with
  | grouped inner l => exact sound_grouped.1 h
  | _ => exact h

/-- The tree of a chain is sound if its operands are. -/
theorem sound_ofChain {chain : List Operation} (he : (Node.expression e).Sound)
    (hchain : ∀ o ∈ chain, (Node.expression o.operand).Sound) :
    (Node.expression (.ofChain e chain)).Sound :=
  every_ofChain he fun o ho => ⟨fun _ _ => by cases o.op <;> exact True.intro, hchain o ho⟩

end Expression

/-! ## Variables and statements -/

section Statement

variable {v : Variable} {s : SimpleStatement} {e e' : Expression} {es : List Expression}
variable {attributes : List Attribute} {form : CompoundStatement} {name : String} {l : Location}
variable {body : List Statement} {otherwise : Option (List Statement)}

/-- A variable is sound if it has its shape, and its type and its value are. -/
theorem sound_variable :
    (Node.variable v).Sound ↔
      v.Shaped ∧ (∀ t ∈ v.type, (Node.type t).Sound) ∧
        ∀ e ∈ v.initializer, (Node.expression e).Sound :=
  sound_iff.trans (by simp [or_imp, forall_and])

@[simp] theorem sound_assign {op : AssignmentOperator} :
    (Node.simple (.assign e op e' l)).Sound ↔
      (Node.expression e).Sound ∧ (Node.expression e').Sound :=
  sound_iff.trans (by simp)

@[simp] theorem sound_step {op : StepOperator} :
    (Node.simple (.step e op l)).Sound ↔ (Node.expression e).Sound :=
  sound_iff.trans (by simp)

@[simp] theorem sound_simple_call :
    (Node.simple (.call name es l)).Sound ↔ ∀ e ∈ es, (Node.expression e).Sound :=
  sound_iff.trans (by simp)

@[simp] theorem sound_forInitializer_variable :
    (Node.forInitializer (.variable v)).Sound ↔ v.kind ≠ .override ∧ (Node.variable v).Sound :=
  sound_iff.trans (by simp)

@[simp] theorem sound_forInitializer_simple :
    (Node.forInitializer (.simple s)).Sound ↔ (Node.simple s).Sound :=
  sound_iff.trans (by simp)

@[simp] theorem sound_statement_variable :
    (Node.statement (.variable v)).Sound ↔ v.kind ≠ .override ∧ (Node.variable v).Sound :=
  sound_iff.trans (by simp [Statement.attributes])

@[simp] theorem sound_statement_simple :
    (Node.statement (.simple s)).Sound ↔ (Node.simple s).Sound :=
  sound_iff.trans (by simp)

@[simp] theorem sound_return {value : Option Expression} :
    (Node.statement (.return value l)).Sound ↔ ∀ e ∈ value, (Node.expression e).Sound :=
  sound_iff.trans (by simp)

@[simp] theorem sound_break : (Node.statement (.break l)).Sound :=
  sound_iff.2 (by simp)

@[simp] theorem sound_breakIf :
    (Node.statement (.breakIf e l)).Sound ↔ (Node.expression e).Sound :=
  sound_iff.trans (by simp)

@[simp] theorem sound_continue : (Node.statement (.continue l)).Sound :=
  sound_iff.2 (by simp)

@[simp] theorem sound_discard : (Node.statement (.discard l)).Sound :=
  sound_iff.2 (by simp)

@[simp] theorem sound_statement_assertion :
    (Node.statement (.assertion e l)).Sound ↔ (Node.expression e).Sound :=
  sound_iff.trans (by simp)

@[simp] theorem sound_compound :
    (Node.statement (.compound attributes form l)).Sound ↔
      (∀ a ∈ attributes, (Node.attribute a).Sound) ∧ (Node.compound form).Sound :=
  sound_iff.trans (by simp [or_imp, forall_and])

@[simp] theorem sound_block :
    (Node.compound (.block body)).Sound ↔ ∀ s ∈ body, (Node.statement s).Sound :=
  sound_iff.trans (by simp)

@[simp] theorem sound_if {alternatives : List Alternative} :
    (Node.compound (.if e body alternatives otherwise)).Sound ↔
      (Node.expression e).Sound ∧ (∀ s ∈ body, (Node.statement s).Sound) ∧
        (∀ a ∈ alternatives, (Node.alternative a).Sound) ∧
        ∀ ss ∈ otherwise, ∀ s ∈ ss, (Node.statement s).Sound :=
  sound_iff.trans (by
    cases otherwise <;> simp [or_imp, forall_and])

@[simp] theorem sound_switch {clauses : List Clause} :
    (Node.compound (.switch e clauses)).Sound ↔
      clauses.countP (·.isDefault) ≤ 1 ∧ (Node.expression e).Sound ∧
        ∀ c ∈ clauses, (Node.clause c).Sound :=
  sound_iff.trans (by simp)

@[simp] theorem sound_for {initializer : Option ForInitializer} {condition : Option Expression}
    {update : Option SimpleStatement} :
    (Node.compound (.for initializer condition update body)).Sound ↔
      (∀ i ∈ initializer, (Node.forInitializer i).Sound) ∧
        (∀ e ∈ condition, (Node.expression e).Sound) ∧
        (∀ s ∈ update, (Node.simple s).Sound) ∧ ∀ s ∈ body, (Node.statement s).Sound :=
  sound_iff.trans (by simp [or_imp, forall_and])

@[simp] theorem sound_while :
    (Node.compound (.while e body)).Sound ↔
      (Node.expression e).Sound ∧ ∀ s ∈ body, (Node.statement s).Sound :=
  sound_iff.trans (by simp)

@[simp] theorem sound_loop :
    (Node.compound (.loop body otherwise)).Sound ↔
      (∀ s ∈ body, (Node.statement s).Sound) ∧
        ∀ ss ∈ otherwise, ∀ s ∈ ss, (Node.statement s).Sound :=
  sound_iff.trans (by
    cases otherwise <;> simp [or_imp, forall_and])

@[simp] theorem sound_alternative :
    (Node.alternative ⟨e, body, l⟩).Sound ↔
      (Node.expression e).Sound ∧ ∀ s ∈ body, (Node.statement s).Sound :=
  sound_iff.trans (by simp)

@[simp] theorem sound_case :
    (Node.clause (.case es body l)).Sound ↔
      es ≠ [] ∧ (∀ e ∈ es, (Node.expression e).Sound) ∧ ∀ s ∈ body, (Node.statement s).Sound :=
  sound_iff.trans (by simp [or_imp, forall_and])

@[simp] theorem sound_default :
    (Node.clause (.default body l)).Sound ↔ ∀ s ∈ body, (Node.statement s).Sound :=
  sound_iff.trans (by simp)

end Statement

/-! ## Declarations -/

section Declaration

variable {t : TypeSpecifier} {e : Expression} {f : Function} {v : Variable} {members : List Binding}
variable {attributes : List Attribute} {name : String} {additional : List String} {l : Location}

@[simp] theorem sound_binding :
    (Node.binding ⟨attributes, name, t, l⟩).Sound ↔
      (∀ a ∈ attributes, (Node.attribute a).Sound) ∧ (Node.type t).Sound :=
  sound_iff.trans (by simp [or_imp, forall_and])

@[simp] theorem sound_result :
    (Node.result ⟨attributes, t⟩).Sound ↔
      t.attributes = [] ∧ (∀ a ∈ attributes, (Node.attribute a).Sound) ∧ (Node.type t).Sound :=
  sound_iff.trans (by simp [or_imp, forall_and])

@[simp] theorem sound_function {result : Option FunctionResult} {body : List Statement} :
    (Node.function ⟨name, members, result, body, l⟩).Sound ↔
      (∀ b ∈ members, (Node.binding b).Sound) ∧ (∀ r ∈ result, (Node.result r).Sound) ∧
        ∀ s ∈ body, (Node.statement s).Sound :=
  sound_iff.trans (by cases result <;> simp [Function.resultAttributes, or_imp, forall_and])

@[simp] theorem sound_enable : (Node.item (.enable name additional l)).Sound :=
  sound_iff.2 (by simp)

@[simp] theorem sound_alias : (Node.item (.alias name t l)).Sound ↔ (Node.type t).Sound :=
  sound_iff.trans (by simp)

@[simp] theorem sound_struct :
    (Node.item (.struct name members l)).Sound ↔ ∀ b ∈ members, (Node.binding b).Sound :=
  sound_iff.trans (by simp)

@[simp] theorem sound_item_function :
    (Node.item (.function f)).Sound ↔ (Node.function f).Sound :=
  sound_iff.trans (by simp)

@[simp] theorem sound_item_variable :
    (Node.item (.variable v)).Sound ↔ (Node.variable v).Sound :=
  sound_iff.trans (by simp)

@[simp] theorem sound_item_assertion :
    (Node.item (.assertion e l)).Sound ↔ (Node.expression e).Sound :=
  sound_iff.trans (by simp)

@[simp] theorem sound_declaration {declared : Item} :
    (Node.declaration ⟨attributes, declared⟩).Sound ↔
      (∀ a ∈ attributes, (Node.attribute a).Sound) ∧ (Node.item declared).Sound :=
  sound_iff.trans (by simp [or_imp, forall_and])

end Declaration

end Node

end Wgsl
