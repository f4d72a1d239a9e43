import Wgsl.Proofs.Discipline
import Wgsl.Proofs.Reach
import Wgsl.Proofs.Shape.Node
import Wgsl.Proofs.TokenKind
import Wgsl.Proofs.WholeToken
import Wgsl.Proofs.Yields

/-!
# Where nodes come from

Every node that has a location was read at a place of the tokens where its own token stood, and has
its location from there (`Node.Made`). Which token that is depends on the form of the node
(`Node.Own`): a name, an operator, an opening bracket, the word that introduces a declaration or a
statement. An assignment, a step and a call as a statement have no token of a kind of their own;
they are read where they begin. A bitcast, moreover, is built there from a type with parameters
(`Nonterminal.Constructs`).

A rule makes a node, and the rules above carry it upwards, into lists, chains, types and statements,
with its location: one lemma for each rule. So it holds of every node of a module, at any depth
(`Module.made_of_ofTokens`).

Nothing is asked of the tokens or of the options.
-/

namespace Wgsl

namespace Nonterminal

/-- From one place to another an expression is read that begins with a type with parameters, and is
built from it. -/
structure Constructs (options : ReadOptions) (c : Cursor) (e : Expression) (c' : Cursor) :
    Prop where
  name : ∃ n, c.current.kind = .identifier n
  less : c.following = .symbol .lessThan
  construction : ∃ made d,
    Nonterminal.constructorType.outcome options c = .accepted made d ∧
      (Nonterminal.construction made c.current.location).outcome options d = .accepted e c'

end Nonterminal

/-- A node, if it is a bitcast, is built at a place that is reached. -/
@[simp] def Node.BuiltFrom (options : ReadOptions) (start : Cursor) : Node → Prop
  | .expression (.bitcast target value l) =>
    ∃ c c', start.Reaches c ∧ Nonterminal.Constructs options c (.bitcast target value l) c'
  | _ => True

/-! ## The token of a node -/

/-- The token that introduces a compound statement. -/
@[simp] def CompoundStatement.opening : CompoundStatement → TokenKind
  | .block _ => .symbol .braceLeft
  | .if .. => .keyword .if
  | .switch .. => .keyword .switch
  | .for .. => .keyword .for
  | .while .. => .keyword .while
  | .loop .. => .keyword .loop

/-- The token introduces the item, or is its name if it is a function. -/
@[simp] def Item.IntroducedBy (k : TokenKind) : Item → Prop
  | .enable .. => k = .keyword .enable
  | .alias .. => k = .keyword .alias
  | .struct .. => k = .keyword .struct
  | .function f => k = .identifier f.name
  | .variable v => k = .keyword v.kind.keyword
  | .assertion .. => k = .keyword .staticAssert ∨ k = .keyword .constAssert

namespace Node

/-- The location of a node, if it has one. -/
@[simp] def location? : Node → Option Location
  | .expression e => e.location
  | .type t => t.location
  | .attribute a => a.location
  | .variable v | .forInitializer (.variable v) => v.location
  | .simple s | .forInitializer (.simple s) => s.location
  | .statement s => s.location
  | .alternative a => a.location
  | .clause (.case _ _ l) | .clause (.default _ l) => l
  | .binding b => b.location
  | .function f => f.location
  | .item i => i.location
  | .declaration d => d.location
  | .compound _ | .result _ => none

/-- The token to be read is the node's own. -/
@[simp] def Own (options : ReadOptions) (c : Cursor) : Node → Prop
  | .expression (.literal spelling kind _) => c.current.kind.literal? = some (spelling, kind)
  | .expression (.identifier name _) | .expression (.call name _ _) =>
    c.current.kind = .identifier name
  | .expression (.unary op _ _) => c.current.kind = .symbol op.symbol
  | .expression (.binary op _ _ _) => c.current.kind = .symbol (InfixOperator.binary op).symbol
  | .expression (.logical op _ _ _) => c.current.kind = .symbol (InfixOperator.logical op).symbol
  | .expression (.member ..) => c.current.kind = .symbol .period
  | .expression (.index ..) => c.current.kind = .symbol .bracketLeft
  | .expression (.construct made _ _) => c.current.kind = .identifier made.name
  | .expression (.bitcast target value l) => c.current.kind = .identifier "bitcast" ∧
    ∃ d, Nonterminal.Constructs options c (.bitcast target value l) d
  | .expression (.grouped ..) => c.current.kind = .symbol .parenLeft
  | .type t => c.current.kind = .identifier t.name
  | .attribute _ => c.current.kind = .symbol .attr
  | .variable v | .forInitializer (.variable v) | .statement (.variable v) =>
    c.current.kind = .keyword v.kind.keyword
  | .simple s | .forInitializer (.simple s) | .statement (.simple s) =>
    ∃ d, Nonterminal.simpleStatement.outcome options c = .accepted s d
  | .statement (.return ..) => c.current.kind = .keyword .return
  | .statement (.break _) | .statement (.breakIf ..) => c.current.kind = .keyword .break
  | .statement (.continue _) => c.current.kind = .keyword .continue
  | .statement (.discard _) => c.current.kind = .keyword .discard
  | .statement (.assertion ..) =>
    c.current.kind = .keyword .staticAssert ∨ c.current.kind = .keyword .constAssert
  | .statement (.compound _ form _) => c.current.kind = form.opening
  | .alternative _ => c.current.kind = .keyword .if ∧
    ∃ b : Cursor, b.current.kind = .keyword .else ∧ c = b.advance
  | .clause (.case ..) => c.current.kind = .keyword .case
  | .clause (.default ..) => c.current.kind = .keyword .default
  | .binding b => c.current.kind = .identifier b.name
  | .function f => c.current.kind = .identifier f.name
  | .item i => i.IntroducedBy c.current.kind
  | .declaration d => d.item.IntroducedBy c.current.kind
  | .compound _ | .result _ => True

/-- A node, if it has a location, has it from a place that is reached, where its own token stands as
a whole. -/
def Made (options : ReadOptions) (start : Cursor) (n : Node) : Prop :=
  ∀ l ∈ n.location?, ∃ c, start.Reaches c ∧ c.current ∈ c.upcoming ∧ c.current.location = l ∧
    n.Own options c

section Made

variable {options : ReadOptions} {start c : Cursor} {n : Node}

private theorem made_of_mem (hc : start.Reaches c) (hmem : c.current ∈ c.upcoming)
    (hl : n.location? = some c.current.location) (hown : n.Own options c) :
    n.Made options start := by
  intro l hl'
  obtain rfl : c.current.location = l := Option.some.inj (hl.symm.trans hl')
  exact ⟨c, hc, hmem, rfl, hown⟩

private theorem made_of_kind {k : TokenKind} (hc : start.Reaches c) (hkind : c.current.kind = k)
    (hk : k.isWhole = true) (hl : n.location? = some c.current.location)
    (hown : n.Own options c) : n.Made options start :=
  made_of_mem hc (Cursor.mem_upcoming_of_kind hkind hk) hl hown

private theorem made_of_none (h : n.location? = none) : n.Made options start := by
  intro l hl
  rw [h] at hl
  cases hl

/-- What is made is a bitcast built at a place that is reached, or none. -/
theorem Made.builtFrom (h : n.Made options start) : n.BuiltFrom options start := by
  unfold BuiltFrom
  split
  · obtain ⟨c, hc, -, -, -, d, hconstructs⟩ := h _ rfl
    exact ⟨c, d, hc, hconstructs⟩
  · exact True.intro

end Made

end Node

namespace Nonterminal

/-- Every node in what is read is made at a place that is reached, if those are that the rule was
given. Of a node that gets its location from another rule this is said only below it; that rule
knows the rest. -/
@[simp] def Carries (options : ReadOptions) (start : Cursor) :
    (n : Nonterminal) → Cursor → n.Result → Cursor → Prop
  | .attribute, _, a, _ => (Node.attribute a).Every (Node.Made options start)
  | .attributes, _, as, _ => ∀ a ∈ as, (Node.attribute a).Every (Node.Made options start)
  | .type, _, t, _ | .constructorType, _, t, _ =>
    (Node.type t).Every (Node.Made options start)
  | .typeParameters name, _, p, _ =>
    (Node.type ⟨[], name, p, default⟩).Below (Node.Made options start)
  | .expression _, _, e, _ | .unary, _, e, _ | .suffixed, _, e, _ | .primary, _, e, _ =>
    (Node.expression e).Every (Node.Made options start)
  | .operations _, c, chain, _ => c.Whole → ∀ o ∈ chain,
    Node.JoinsAt (Node.Made options start) o.op o.location ∧
      (Node.expression o.operand).Every (Node.Made options start)
  | .suffixes base, _, e, _ => (Node.expression base).Every (Node.Made options start) →
      (Node.expression e).Every (Node.Made options start)
  | .construction t l, _, e, _ => (Node.type t).Every (Node.Made options start) →
    (Node.expression e).Below (Node.Made options start) ∧
      ((∃ arguments, e = .construct t arguments l) ∨
        (∃ target value, e = .bitcast target value l) ∧ t.name = "bitcast")
  | .expressions, _, es, _ | .arguments, _, es, _ | .selectors, _, es, _ =>
    ∀ e ∈ es, (Node.expression e).Every (Node.Made options start)
  | .block _, _, ss, _ | .statements, _, ss, _ =>
    ∀ s ∈ ss, (Node.statement s).Every (Node.Made options start)
  | .storage _, _, _, _ | .furtherNames, _, _, _ => True
  | .ascription, _, ascribed, _ =>
    ∀ t ∈ ascribed, (Node.type t).Every (Node.Made options start)
  | .initializer _, _, value, _ | .forCondition, _, value, _ =>
    ∀ e ∈ value, (Node.expression e).Every (Node.Made options start)
  | .variable kind l, _, v, _ =>
    v.kind = kind ∧ v.location = l ∧ (Node.variable v).Below (Node.Made options start)
  | .simpleStatement, c, s, _ => c.current ∈ c.upcoming ∧ s.location = c.current.location ∧
    (Node.simple s).Below (Node.Made options start)
  | .plainStatement, _, s, _ | .statement, _, s, _ =>
    (Node.statement s).Every (Node.Made options start)
  | .conditional, _, f, _ =>
    f.opening = .keyword .if ∧ (Node.compound f).Every (Node.Made options start)
  | .selection, _, f, _ =>
    f.opening = .keyword .switch ∧ (Node.compound f).Every (Node.Made options start)
  | .iteration, _, f, _ =>
    f.opening = .keyword .for ∧ (Node.compound f).Every (Node.Made options start)
  | .repetition, _, f, _ =>
    f.opening = .keyword .while ∧ (Node.compound f).Every (Node.Made options start)
  | .loop, _, f, _ =>
    f.opening = .keyword .loop ∧ (Node.compound f).Every (Node.Made options start)
  | .alternatives, _, x, _ =>
    (∀ a ∈ x.1, (Node.alternative a).Every (Node.Made options start)) ∧
      ∀ ss ∈ x.2, ∀ s ∈ ss, (Node.statement s).Every (Node.Made options start)
  | .clauses _, _, cs, _ => ∀ c ∈ cs, (Node.clause c).Every (Node.Made options start)
  | .forInitializer, _, first, _ =>
    ∀ i ∈ first, (Node.forInitializer i).Every (Node.Made options start)
  | .forUpdate, _, update, _ => ∀ s ∈ update, (Node.simple s).Every (Node.Made options start)
  | .loopBody, _, x, _ =>
    (∀ s ∈ x.1, (Node.statement s).Every (Node.Made options start)) ∧
      ∀ ss ∈ x.2, ∀ s ∈ ss, (Node.statement s).Every (Node.Made options start)
  | .bindings _, _, bs, _ => ∀ b ∈ bs, (Node.binding b).Every (Node.Made options start)
  | .functionResult, _, result, _ =>
    ∀ r ∈ result, (Node.result r).Every (Node.Made options start)
  | .function, _, f, _ => (Node.function f).Every (Node.Made options start)
  | .item, _, i, _ => (Node.item i).Every (Node.Made options start)
  | .declaration, _, d, _ => (Node.declaration d).Every (Node.Made options start)
  | .declarations, _, ds, _ => ∀ d ∈ ds, (Node.declaration d).Every (Node.Made options start)

/-- The rule of a nonterminal carries the nodes of what it reads, and makes others only where their
own tokens stand. -/
abbrev KeepsOrigin (options : ReadOptions) (start : Cursor) (n : Nonterminal) : Prop :=
  ∀ c, start.Reaches c → (Production.ofNonterminal options n).Yields
    (Given start.Reaches fun n c a d =>
      n.outcome options c = .accepted a d ∧ Carries options start n c a d) c
    (Carries options start n c)

end Nonterminal

namespace Node

variable {options : ReadOptions} {start c d : Cursor}

/-- What has nothing below it is made if it is. -/
theorem every_of_no_children {P : Node → Prop} {n : Node} (h : n.children = []) (hn : P n) :
    n.Every P :=
  every_iff.2 ⟨hn, fun child hchild => by rw [h] at hchild; cases hchild⟩

/-- An operation is made where its operator stands. -/
theorem joinsAt_made {op : InfixOperator} (hc : start.Reaches c) (hmem : c.current ∈ c.upcoming)
    (hop : c.current.kind = .symbol op.symbol) :
    JoinsAt (Made options start) op c.current.location := by
  intro left right
  cases op with
  | binary op | logical op => exact made_of_mem hc hmem rfl hop

/-- A variable is made where the word stands that introduces it. -/
theorem every_variable {kind : VariableKind} {v : Variable} (hc : start.Reaches c)
    (hword : c.current.kind = .keyword kind.keyword)
    (hv : v.kind = kind ∧ v.location = c.current.location ∧
      (Node.variable v).Below (Made options start)) :
    (Node.variable v).Every (Made options start) := by
  obtain ⟨rfl, hl, hbelow⟩ := hv
  exact every_iff.2 ⟨made_of_kind hc hword rfl (congrArg some hl) hword, hbelow⟩

/-- A simple statement is made where it is read. -/
theorem every_simple {s : SimpleStatement} (hc : start.Reaches c)
    (hread : Nonterminal.simpleStatement.outcome options c = .accepted s d)
    (hs : c.current ∈ c.upcoming ∧ s.location = c.current.location ∧
      (Node.simple s).Below (Made options start)) :
    (Node.simple s).Every (Made options start) :=
  every_iff.2 ⟨made_of_mem hc hs.1 (congrArg some hs.2.1) ⟨d, hread⟩, hs.2.2⟩

/-- What is built from a type is made where the name of the type stands. -/
theorem every_of_constructs {e : Expression} {t : TypeSpecifier} {name : String}
    (hc : start.Reaches c) (hname : c.current.kind = .identifier name) (ht : t.name = name)
    (he : Nonterminal.Constructs options c e d)
    (h : (Node.expression e).Below (Made options start) ∧
      ((∃ arguments, e = .construct t arguments c.current.location) ∨
        (∃ target value, e = .bitcast target value c.current.location) ∧ t.name = "bitcast")) :
    (Node.expression e).Every (Made options start) := by
  subst ht
  refine every_iff.2 ⟨?_, h.1⟩
  rcases h.2 with ⟨arguments, rfl⟩ | ⟨⟨target, value, rfl⟩, hbitcast⟩
  · exact made_of_kind hc hname rfl rfl hname
  · exact made_of_kind hc hname rfl rfl ⟨by rw [hname, hbitcast], d, he⟩

/-- Below a type stand its attributes and what stands in its parameters. -/
theorem below_type {P : Node → Prop} {attributes : List Attribute} {name : String}
    {p : TypeParameters} {l : Location} :
    (Node.type ⟨attributes, name, p, l⟩).Below P ↔
      (∀ a ∈ attributes, (Node.attribute a).Every P) ∧
        (Node.type ⟨[], name, p, default⟩).Below P := by
  simp [Below, TypeSpecifier.inner?, TypeSpecifier.count?, or_imp, forall_and]

/-- Without its parentheses, an expression has what it had throughout. -/
theorem Every.withoutParentheses {P : Node → Prop} {e : Expression}
    (h : (Node.expression e).Every P) : (Node.expression e.withoutParentheses).Every P := by
  cases e with
  | grouped inner l => exact (every_iff.1 h).2 _ (List.mem_singleton_self _)
  | _ => exact h

end Node

namespace Production

open Rule Nonterminal

variable {options : ReadOptions} {start : Cursor}

/-! ## Attributes and types -/

private theorem keepsOrigin_attributes : KeepsOrigin options start .attributes := by
  intro c _
  simp only [Carries, ofNonterminal, attributes, yields_steps, List.mem_cons, forall_eq_or_imp,
    given_iff, and_imp, List.not_mem_nil, false_implies, implies_true, and_true]
  exact fun _ a d _ _ _ ha as c' _ _ _ has => ⟨ha, has⟩

private theorem keepsOrigin_attribute : KeepsOrigin options start .attribute := by
  intro c hc
  simp only [ofNonterminal, singleAttribute, yields_steps]
  intro hat
  split
  · simp
  · simp only [yields_steps, given_iff, and_imp, Bool.not_eq_true, true_implies, Bool.true_eq_false,
      false_implies, and_true, Bool.false_eq_true, true_and]
    refine ⟨fun _ es d _ _ _ hes _ => Node.every_iff.2 ⟨?_, by simpa [Node.Below] using hes⟩,
      fun _ => Node.every_of_no_children rfl ?_⟩
    · exact Node.made_of_kind hc hat rfl rfl hat
    · exact Node.made_of_kind hc hat rfl rfl hat

private theorem keepsOrigin_type : KeepsOrigin options start .type := by
  intro c _
  simp only [ofNonterminal, type, yields_steps, given_iff, and_imp, Bool.not_eq_true, true_implies,
    Bool.true_eq_false, false_implies, and_true, Bool.false_eq_true, true_and]
  intro as d _ hd _ has name hname
  have hmade (p : TypeParameters) :
      (Node.type ⟨as, name, p, d.current.location⟩).Made options start :=
    Node.made_of_kind hd hname rfl rfl hname
  refine ⟨fun _ p c' _ _ _ hp => Node.every_iff.2 ⟨hmade p, Node.below_type.2 ⟨has, hp⟩⟩,
    fun _ => Node.every_iff.2 ⟨hmade .none, Node.below_type.2 ⟨has, ?_⟩⟩⟩
  simp [Node.Below, TypeSpecifier.inner?, TypeParameters.type?, TypeSpecifier.count?]

private theorem keepsOrigin_constructorType : KeepsOrigin options start .constructorType := by
  intro c _
  simp only [ofNonterminal, constructorType, yields_steps, implies_true, and_true, given_iff,
    and_imp]
  exact fun t c' _ _ _ ht _ => ht

private theorem keepsOrigin_typeParameters (name : String) :
    KeepsOrigin options start (.typeParameters name) := by
  intro c _
  simp only [ofNonterminal, typeParameters, Bool.or_eq_true, yields_steps, Bool.not_eq_true,
    yields_furtherParameter, Bool.false_eq_true, false_implies, true_implies, true_and, given_iff,
    and_imp, not_or]
  refine ⟨fun _ storageClass _ _ target d _ _ _ htarget => ?_, fun _ element d _ _ _ helement => ?_⟩
  · have hbelow (accessMode : Option String) :
        (Node.type ⟨[], name, .pointer storageClass target accessMode, default⟩).Below
          (Node.Made options start) := by
      simpa [Node.Below, TypeSpecifier.inner?, TypeParameters.type?, TypeSpecifier.count?]
        using htarget
    refine ⟨fun _ => ⟨fun _ accessMode _ => ?_, fun _ => ?_⟩, fun _ => ?_⟩
    · exact yields_closeParameters_of_any fun _ => hbelow _
    · exact yields_closeParameters_of_any fun _ => hbelow _
    · exact yields_closeParameters_of_any fun _ => hbelow _
  · have hbelow (accessMode : Option String) :
        (Node.type ⟨[], name, .element element accessMode, default⟩).Below
          (Node.Made options start) := by
      simpa [Node.Below, TypeSpecifier.inner?, TypeParameters.type?, TypeSpecifier.count?]
        using helement
    refine ⟨fun _ => ⟨fun _ => ⟨fun _ count d' _ _ _ hcount => ?_, fun _ _ accessMode _ => ?_⟩,
      fun _ => ?_⟩, fun _ => ?_⟩
    · refine yields_closeParameters_of_any fun _ => ?_
      simpa [Node.Below, TypeSpecifier.inner?, TypeParameters.type?, TypeSpecifier.count?]
        using ⟨helement, hcount⟩
    · exact yields_closeParameters_of_any fun _ => hbelow _
    · exact yields_closeParameters_of_any fun _ => hbelow _
    · exact yields_closeParameters_of_any fun _ => hbelow _

private theorem keepsOrigin_expression (inAngles : Bool) :
    KeepsOrigin options start (.expression inAngles) := by
  intro c _
  simp only [ofNonterminal, expression, yields_steps, given_iff, and_imp]
  intro first d _ _ hread hfirst chain c' _ _ _ hchain
  have hwhole := (Nonterminal.unary.keepsWhole options c first d hread).2
  exact Node.every_ofChain hfirst (hchain hwhole)

private theorem keepsOrigin_operations (inAngles : Bool) :
    KeepsOrigin options start (.operations inAngles) := by
  intro c hc
  simp only [ofNonterminal, operations, yields_steps]
  split
  · simp
  · rename_i op hop
    have hmark := TokenKind.infix?_eq_some_iff.1 hop
    simp only [yields_steps, Carries, List.not_mem_nil, false_implies, implies_true, List.mem_cons,
      forall_eq_or_imp, given_iff, and_imp, true_and]
    intro _ operand d _ _ hread hoperand chain c' _ _ _ hchain hwhole
    have hbehind := (Nonterminal.unary.keepsWhole options _ operand d hread).2
    have hmem := hwhole (by simp [hmark])
    exact ⟨⟨Node.joinsAt_made hc hmem hmark, hoperand⟩, hchain hbehind⟩

private theorem keepsOrigin_unary : KeepsOrigin options start .unary := by
  intro c hc
  simp only [ofNonterminal, unary, yields_steps]
  split
  · simp
  · rename_i op hop
    have hmark := TokenKind.unary?_eq_some_iff.1 hop
    have hwhole : (TokenKind.symbol op.symbol).isWhole = true := by cases op <;> rfl
    simp only [yields_steps, Carries, given_iff, and_imp]
    exact fun operand c' _ _ _ hoperand => Node.every_iff.2
      ⟨Node.made_of_kind hc hmark hwhole rfl hmark, by simpa [Node.Below] using hoperand⟩

private theorem keepsOrigin_suffixed : KeepsOrigin options start .suffixed := by
  intro c _
  simp only [ofNonterminal, suffixed, yields_steps, given_iff, and_imp]
  exact fun base d _ _ _ hbase e c' _ _ _ he => he hbase

private theorem keepsOrigin_suffixes (base : Expression) :
    KeepsOrigin options start (.suffixes base) := by
  intro c hc
  simp only [ofNonterminal, suffixes, yields_steps]
  split
  · rename_i hbracket
    simp only [yields_steps, given_iff, Carries, and_imp]
    exact fun index d _ _ _ hindex _ e c' _ _ _ he hbase => he (Node.every_iff.2
      ⟨Node.made_of_kind hc hbracket rfl rfl hbracket, by simp [Node.Below, hbase, hindex]⟩)
  · rename_i hperiod
    simp only [yields_steps, given_iff, Carries, and_imp]
    exact fun name _ e c' _ _ _ he hbase => he (Node.every_iff.2
      ⟨Node.made_of_kind hc hperiod rfl rfl hperiod, by simp [Node.Below, hbase]⟩)
  · split
    · simp only [yields_steps, given_iff, Carries, and_imp]
      -- the call is made where its name was read, and has its location
      exact fun arguments d _ _ _ harguments e c' _ _ _ he hbase => he (Node.every_iff.2
        ⟨(Node.every_iff.1 hbase).1, by simpa [Node.Below] using harguments⟩)
    · simp
  · simp

private theorem keepsOrigin_construction (t : TypeSpecifier) (l : Location) :
    KeepsOrigin options start (.construction t l) := by
  intro c _
  simp only [Carries, ofNonterminal, construction, yields_steps, given_iff, and_imp]
  intro arguments d _ _ _ harguments
  split
  · simp only [yields_steps]
    exact fun ht => by simpa [Node.Below, ht] using harguments
  · rename_i htarget _
    simp only [yields_steps, Carries, reduceCtorEq, exists_const, Expression.bitcast.injEq,
      ↓existsAndEq, true_and, false_or]
    intro ht
    obtain ⟨hbitcast, hinner⟩ := TypeSpecifier.bitcastTarget?_eq_some_iff.1 htarget
    simp only [List.mem_cons, List.not_mem_nil, or_false, forall_eq, Node.Below, Node.children,
      forall_eq_or_imp] at harguments ⊢
    exact ⟨⟨(Node.every_iff.1 ht).2 _ (by simp [hinner]), harguments⟩, hbitcast⟩
  · simp

private theorem keepsOrigin_primary : KeepsOrigin options start .primary := by
  intro c hc
  simp only [ofNonterminal, primary, yields_steps]
  split
  · rename_i spelling hnumber
    simp only [yields_steps, Carries]
    refine Node.every_of_no_children rfl (Node.made_of_kind hc hnumber rfl rfl ?_)
    simp [hnumber, TokenKind.literal?]
  · rename_i htrue
    simp only [yields_steps, Carries]
    refine Node.every_of_no_children rfl (Node.made_of_kind hc htrue rfl rfl ?_)
    simp [htrue, TokenKind.literal?]
  · rename_i hfalse
    simp only [yields_steps, Carries]
    refine Node.every_of_no_children rfl (Node.made_of_kind hc hfalse rfl rfl ?_)
    simp [hfalse, TokenKind.literal?]
  · rename_i hparen
    simp only [yields_steps, Carries, given_iff, and_imp]
    intro inner d _ _ _ hinner _
    split
    · exact Node.every_iff.2
        ⟨Node.made_of_kind hc hparen rfl rfl hparen, by simpa [Node.Below] using hinner⟩
    · exact hinner
  · rename_i name hname
    have hidentifier : (Node.expression (.identifier name c.current.location)).Every
        (Node.Made options start) :=
      Node.every_of_no_children rfl (Node.made_of_kind hc hname rfl rfl hname)
    simp only [yields_steps]
    split
    · rename_i hless
      simp only [yields_steps, given_iff, Carries, and_imp]
      refine ⟨fun made d _ _ houtcome hmade e c' _ _ he hbelow => ?_, hidentifier⟩
      exact Node.every_of_constructs hc hname (constructorType_of_name options hname houtcome).1
        ⟨⟨name, hname⟩, hless, made, d, houtcome, he⟩ (hbelow hmade)
    · simp only [yields_steps, Carries, given_iff, and_imp, Bool.not_eq_true]
      refine ⟨fun _ arguments d _ _ _ harguments => ?_, fun _ => hidentifier⟩
      have hmade : (Node.type ⟨[], name, .none, c.current.location⟩).Every
          (Node.Made options start) :=
        Node.every_iff.2 ⟨Node.made_of_kind hc hname rfl rfl hname, by
          simp [Node.Below, TypeSpecifier.inner?, TypeParameters.type?, TypeSpecifier.count?]⟩
      exact Node.every_iff.2 ⟨Node.made_of_kind hc hname rfl rfl hname, by
        simpa [Node.Below, hmade] using harguments⟩
    · simpa using hidentifier
  · simp

private theorem keepsOrigin_expressions : KeepsOrigin options start .expressions := by
  intro c _
  simp only [Carries, ofNonterminal, expressions, yields_steps, List.not_mem_nil, false_implies,
    implies_true, Bool.not_eq_true, List.mem_cons, forall_eq_or_imp, given_iff, and_imp,
    true_implies, Bool.true_eq_false, and_true, Bool.false_eq_true, true_and]
  exact fun _ e d _ _ _ he => ⟨fun _ es c' _ _ _ hes => ⟨he, hes⟩, fun _ => he⟩

private theorem keepsOrigin_arguments : KeepsOrigin options start .arguments := by
  intro c _
  simp only [ofNonterminal, arguments, yields_steps, given_iff, and_imp]
  exact fun _ es d _ _ _ hes _ => hes

/-! ## Variables -/

private theorem keepsOrigin_block (place : String) : KeepsOrigin options start (.block place) := by
  intro c _
  simp only [ofNonterminal, block, yields_steps, given_iff, and_imp]
  exact fun _ ss d _ _ _ hss _ => hss

private theorem keepsOrigin_storage (kind : VariableKind) :
    KeepsOrigin options start (.storage kind) := by
  intro c _
  simp [storage]

private theorem keepsOrigin_ascription : KeepsOrigin options start .ascription := by
  intro c _
  simp [ascription]

private theorem keepsOrigin_initializer (kind : VariableKind) :
    KeepsOrigin options start (.initializer kind) := by
  intro c _
  simp [initializer]

private theorem keepsOrigin_variable (kind : VariableKind) (l : Location) :
    KeepsOrigin options start (.variable kind l) := by
  intro c _
  simp only [Carries, ofNonterminal, variableDeclaration, yields_steps, implies_true, true_and,
    given_iff, and_imp, and_true]
  intro stored d _ _ _ name _ type d' _ _ _ htype value c' _ _ _ hvalue _
  simpa [Node.Below, or_imp, forall_and] using ⟨htype, hvalue⟩

/-! ## Statements -/

private theorem keepsOrigin_simpleStatement : KeepsOrigin options start .simpleStatement := by
  intro c _
  simp only [Carries, ofNonterminal, simpleStatement, yields_steps, given_iff, and_imp]
  intro target d _ _ hread htarget
  have hmem := (Nonterminal.unary.keepsWhole options c target d hread).1
  split
  · simp only [yields_steps, Carries, given_iff, and_imp]
    exact fun value c' _ _ _ hvalue => ⟨hmem, rfl, by simp [Node.Below, htarget, hvalue]⟩
  · simp only [yields_steps, Carries]
    exact ⟨hmem, rfl, by simpa [Node.Below] using htarget⟩
  · simp only [yields_steps, Carries]
    exact ⟨hmem, rfl, by simpa [Node.Below] using (Node.every_iff.1 htarget).2⟩
  · simp

private theorem keepsOrigin_plainStatement : KeepsOrigin options start .plainStatement := by
  intro c hc
  simp only [ofNonterminal, plainStatement, condition, yields_steps]
  split
  · rename_i hword
    simp only [yields_steps, Bool.not_eq_true, given_iff, and_imp, true_implies, Bool.true_eq_false,
      false_implies, and_true, Bool.false_eq_true, true_and]
    refine ⟨fun _ => Node.every_of_no_children rfl (Node.made_of_kind hc hword rfl rfl hword),
      fun _ value d _ _ _ hvalue _ =>
        Node.every_iff.2 ⟨Node.made_of_kind hc hword rfl rfl hword, ?_⟩⟩
    simpa [Node.Below] using hvalue
  · rename_i hword
    simp only [yields_steps, Carries, given_iff, and_imp]
    refine ⟨fun _ test d _ _ _ htest _ =>
        Node.every_iff.2 ⟨Node.made_of_kind hc hword rfl rfl hword, ?_⟩,
      fun _ _ => Node.every_of_no_children rfl (Node.made_of_kind hc hword rfl rfl hword)⟩
    simpa [Node.Below] using htest.withoutParentheses
  · rename_i hword
    simp only [yields_steps, Carries]
    exact fun _ => Node.every_of_no_children rfl (Node.made_of_kind hc hword rfl rfl hword)
  · rename_i hword
    simp only [yields_steps, Carries]
    exact fun _ => Node.every_of_no_children rfl (Node.made_of_kind hc hword rfl rfl hword)
  · rename_i hword
    simp only [yields_steps, Carries, given_iff, and_imp]
    exact fun test d _ _ _ htest _ => Node.every_iff.2
      ⟨Node.made_of_kind hc hword rfl rfl (.inl hword),
        by simpa [Node.Below] using htest.withoutParentheses⟩
  · rename_i hword
    simp only [yields_steps, Carries, given_iff, and_imp]
    exact fun test d _ _ _ htest _ => Node.every_iff.2
      ⟨Node.made_of_kind hc hword rfl rfl (.inr hword),
        by simpa [Node.Below] using htest.withoutParentheses⟩
  · split
    · rename_i kind hkind
      have hword := (TokenKind.localVariableKind?_eq_some_iff.1 hkind).1
      simp only [yields_steps, Carries, given_iff, and_imp]
      intro v d _ _ _ hv hl hbelow _
      have hvariable := Node.every_variable hc hword ⟨hv, hl, hbelow⟩
      exact Node.every_iff.2
        ⟨(Node.every_iff.1 hvariable).1, by simpa [Node.Below] using hvariable⟩
    · simp only [yields_steps, Carries, given_iff, and_imp]
      intro s d _ _ hread hmem hl hbelow _
      have hsimple := Node.every_simple hc hread ⟨hmem, hl, hbelow⟩
      exact Node.every_iff.2 ⟨(Node.every_iff.1 hsimple).1, by simpa [Node.Below] using hsimple⟩

private theorem keepsOrigin_statement : KeepsOrigin options start .statement := by
  intro c _
  simp only [ofNonterminal, statement, yields_steps, given_iff, and_imp]
  intro attributes d _ hd _ hattributes
  have hcompound (form : CompoundStatement) (hopening : d.current.kind = form.opening)
      (hform : (Node.compound form).Every (Node.Made options start)) :
      (Node.statement (.compound attributes form d.current.location)).Every
        (Node.Made options start) := by
    have hwhole : form.opening.isWhole = true := by cases form <;> rfl
    exact Node.every_iff.2 ⟨Node.made_of_kind hd hopening hwhole rfl hopening, by
      simpa [Node.Below, or_imp, forall_and] using ⟨hattributes, hform⟩⟩
  split
  · rename_i hword
    simp only [yields_steps, Carries, given_iff, and_imp]
    exact fun form c' _ _ _ hopening hform =>
      hcompound form (hword.trans hopening.symm) hform
  · rename_i hword
    simp only [yields_steps, Carries, given_iff, and_imp]
    exact fun form c' _ _ _ hopening hform =>
      hcompound form (hword.trans hopening.symm) hform
  · rename_i hword
    simp only [yields_steps, Carries, given_iff, and_imp]
    exact fun form c' _ _ _ hopening hform =>
      hcompound form (hword.trans hopening.symm) hform
  · rename_i hword
    simp only [yields_steps, Carries, given_iff, and_imp]
    exact fun form c' _ _ _ hopening hform =>
      hcompound form (hword.trans hopening.symm) hform
  · rename_i hword
    simp only [yields_steps, Carries, given_iff, and_imp]
    exact fun form c' _ _ _ hopening hform =>
      hcompound form (hword.trans hopening.symm) hform
  · rename_i hbrace
    simp only [yields_steps, Carries, given_iff, and_imp]
    exact fun ss c' _ _ _ hss => hcompound _ hbrace
      (Node.every_iff.2 ⟨Node.made_of_none rfl, by simpa [Node.Below] using hss⟩)
  · simp

private theorem keepsOrigin_statements : KeepsOrigin options start .statements := by
  intro c _
  simp only [ofNonterminal, statements, yields_steps]
  split
  · simp
  · simp
  · simp
  · simp only [yields_steps, Carries, List.mem_cons, forall_eq_or_imp, given_iff, and_imp]
    exact fun s d _ _ _ hs ss c' _ _ _ hss => ⟨hs, hss⟩

private theorem keepsOrigin_conditional : KeepsOrigin options start .conditional := by
  intro c _
  simp only [Carries, CompoundStatement.opening, ofNonterminal, conditional, condition,
    yields_steps, true_and, given_iff, and_imp, Prod.forall]
  intro test d _ _ _ htest body d' _ _ _ hbody alternatives otherwise c' _ _ _ halternatives
    hotherwise
  refine Node.every_iff.2 ⟨Node.made_of_none rfl, ?_⟩
  have htest := htest.withoutParentheses
  cases otherwise with
  | none => simpa [Node.Below, or_imp, forall_and] using ⟨htest, hbody, halternatives⟩
  | some ss =>
    simpa [Node.Below, or_imp, forall_and] using ⟨htest, hbody, halternatives, hotherwise ss rfl⟩

private theorem keepsOrigin_alternatives : KeepsOrigin options start .alternatives := by
  intro c hc
  simp only [Carries, Option.mem_def, ofNonterminal, alternatives, condition, yields_steps,
    List.mem_cons, forall_eq_or_imp, given_iff, and_imp, Prod.forall, List.not_mem_nil,
    false_implies, implies_true, Option.some.injEq, forall_eq', true_and, imp_self, and_true,
    reduceCtorEq]
  intro helse hif test d _ _ _ htest body d' _ _ _ hbody alternatives otherwise c' _ _ _
    halternatives hotherwise
  refine ⟨⟨Node.every_iff.2 ⟨?_, ?_⟩, halternatives⟩, hotherwise⟩
  · exact Node.made_of_kind hc.advance hif rfl rfl ⟨hif, c, helse, rfl⟩
  · simpa [Node.Below] using ⟨htest.withoutParentheses, hbody⟩

private theorem keepsOrigin_selection : KeepsOrigin options start .selection := by
  intro c _
  simp only [Carries, CompoundStatement.opening, ofNonterminal, selection, condition, yields_steps,
    true_and, given_iff, and_imp]
  exact fun selector d _ _ _ hselector _ clauses c' _ _ _ hclauses _ =>
    Node.every_iff.2 ⟨Node.made_of_none rfl, by
      simpa [Node.Below] using ⟨hselector.withoutParentheses, hclauses⟩⟩

private theorem keepsOrigin_clauses (hasDefault : Bool) :
    KeepsOrigin options start (.clauses hasDefault) := by
  intro c hc
  simp only [ofNonterminal, clauses, yields_steps]
  split
  · simp
  · rename_i hword
    simp only [yields_steps, Carries, List.mem_cons, forall_eq_or_imp, given_iff, and_imp]
    intro selectors d _ _ _ hselectors
    have hclause (body : List Statement)
        (hbody : ∀ s ∈ body, (Node.statement s).Every (Node.Made options start)) :
        (Node.clause (.case selectors body c.current.location)).Every (Node.Made options start) :=
      Node.every_iff.2 ⟨Node.made_of_kind hc hword rfl rfl hword, by
        simpa [Node.Below, or_imp, forall_and] using ⟨hselectors, hbody⟩⟩
    exact ⟨fun _ body d' _ _ _ hbody rest c' _ _ _ hrest => ⟨hclause body hbody, hrest⟩,
      fun _ body d' _ _ _ hbody rest c' _ _ _ hrest => ⟨hclause body hbody, hrest⟩⟩
  · rename_i hword
    have hclause (body : List Statement)
        (hbody : ∀ s ∈ body, (Node.statement s).Every (Node.Made options start)) :
        (Node.clause (.default body c.current.location)).Every (Node.Made options start) :=
      Node.every_iff.2
        ⟨Node.made_of_kind hc hword rfl rfl hword, by simpa [Node.Below] using hbody⟩
    simp only [yields_steps, implies_true, Carries, List.mem_cons, forall_eq_or_imp, given_iff,
      and_imp, true_and]
    exact fun _ => ⟨fun _ body d _ _ _ hbody rest c' _ _ _ hrest => ⟨hclause body hbody, hrest⟩,
      fun _ body d _ _ _ hbody rest c' _ _ _ hrest => ⟨hclause body hbody, hrest⟩⟩
  · simp

private theorem keepsOrigin_selectors : KeepsOrigin options start .selectors := by
  intro c _
  simp only [Carries, ofNonterminal, selectors, yields_steps, List.mem_cons, List.not_mem_nil,
    or_false, forall_eq, not_or, forall_eq_or_imp, given_iff, and_imp, Bool.not_eq_true,
    true_implies, Bool.true_eq_false, false_implies, and_true, Bool.false_eq_true, true_and]
  exact fun e d _ _ _ he =>
    ⟨fun _ => ⟨fun _ => he, fun _ _ es c' _ _ _ hes => ⟨he, hes⟩⟩, fun _ => he⟩

private theorem keepsOrigin_forInitializer : KeepsOrigin options start .forInitializer := by
  intro c hc
  simp only [Carries, Option.mem_def, ofNonterminal, forInitializer, yields_steps, reduceCtorEq,
    false_implies, implies_true, true_and]
  intro _
  split
  · rename_i kind hkind
    have hword := (TokenKind.localVariableKind?_eq_some_iff.1 hkind).1
    simp only [yields_steps, Carries, Option.mem_def, Option.some.injEq, forall_eq', given_iff,
      and_imp]
    intro v c' _ _ _ hv hl hbelow
    have hvariable := Node.every_variable hc hword ⟨hv, hl, hbelow⟩
    exact Node.every_iff.2
      ⟨(Node.every_iff.1 hvariable).1, by simpa [Node.Below] using hvariable⟩
  · simp only [yields_steps, Carries, Option.mem_def, Option.some.injEq, forall_eq', given_iff,
      and_imp]
    intro s c' _ _ hread hmem hl hbelow
    have hsimple := Node.every_simple hc hread ⟨hmem, hl, hbelow⟩
    exact Node.every_iff.2 ⟨(Node.every_iff.1 hsimple).1, by simpa [Node.Below] using hsimple⟩

private theorem keepsOrigin_forCondition : KeepsOrigin options start .forCondition := by
  intro c _
  simp [forCondition]

private theorem keepsOrigin_forUpdate : KeepsOrigin options start .forUpdate := by
  intro c hc
  simp only [Carries, Option.mem_def, ofNonterminal, forUpdate, yields_steps, reduceCtorEq,
    false_implies, implies_true, Option.some.injEq, forall_eq', given_iff, and_imp, true_and]
  exact fun _ s c' _ _ hread hmem hl hbelow => Node.every_simple hc hread ⟨hmem, hl, hbelow⟩

private theorem keepsOrigin_iteration : KeepsOrigin options start .iteration := by
  intro c _
  simp only [Carries, CompoundStatement.opening, ofNonterminal, iteration, yields_steps, true_and,
    given_iff, and_imp]
  exact fun _ first d _ _ _ hfirst _ test d' _ _ _ htest _ update d'' _ _ _ hupdate _ body c' _ _ _
    hbody => Node.every_iff.2 ⟨Node.made_of_none rfl, by
      simpa [Node.Below, or_imp, forall_and] using ⟨hfirst, htest, hupdate, hbody⟩⟩

private theorem keepsOrigin_repetition : KeepsOrigin options start .repetition := by
  intro c _
  simp only [Carries, CompoundStatement.opening, ofNonterminal, repetition, condition, yields_steps,
    true_and, given_iff, and_imp]
  exact fun test d _ _ _ htest body c' _ _ _ hbody => Node.every_iff.2
    ⟨Node.made_of_none rfl, by simpa [Node.Below] using ⟨htest.withoutParentheses, hbody⟩⟩

private theorem keepsOrigin_loop : KeepsOrigin options start .loop := by
  intro c _
  simp only [Carries, CompoundStatement.opening, ofNonterminal, loop, yields_steps, true_and,
    given_iff, and_imp, Prod.forall]
  intro _ body continuing d _ _ _ hbody hcontinuing _
  refine Node.every_iff.2 ⟨Node.made_of_none rfl, ?_⟩
  cases continuing with
  | none => simpa [Node.Below] using hbody
  | some ss => simpa [Node.Below, or_imp, forall_and] using ⟨hbody, hcontinuing ss rfl⟩

private theorem keepsOrigin_loopBody : KeepsOrigin options start .loopBody := by
  intro c _
  simp only [ofNonterminal, loopBody, yields_steps]
  split
  · simp
  · simp
  · simp
  · simp only [yields_steps, Carries, List.mem_cons, forall_eq_or_imp, given_iff, and_imp,
      Prod.forall]
    exact fun s d _ _ _ hs body continuing c' _ _ _ hbody hcontinuing =>
      ⟨⟨hs, hbody⟩, hcontinuing⟩

/-! ## Declarations -/

private theorem keepsOrigin_furtherNames : KeepsOrigin options start .furtherNames := by
  intro c _
  simp [furtherNames]

private theorem keepsOrigin_bindings (role : BindingRole) :
    KeepsOrigin options start (.bindings role) := by
  intro c _
  simp only [Carries, ofNonterminal, bindings, yields_steps, List.not_mem_nil, false_implies,
    implies_true, Bool.not_eq_true, List.mem_cons, forall_eq_or_imp, given_iff, and_imp,
    true_implies, Bool.true_eq_false, and_true, Bool.false_eq_true, true_and]
  intro _ attributes d _ hd _ hattributes name hname _ t d' _ _ _ ht
  have hbinding :
      (Node.binding ⟨attributes, name, t, d.current.location⟩).Every (Node.Made options start) :=
    Node.every_iff.2 ⟨Node.made_of_kind hd hname rfl rfl hname, by
      simpa [Node.Below, or_imp, forall_and] using ⟨hattributes, ht⟩⟩
  exact ⟨fun _ bs c' _ _ _ hbs => ⟨hbinding, hbs⟩, fun _ => hbinding⟩

private theorem keepsOrigin_functionResult : KeepsOrigin options start .functionResult := by
  intro c _
  simp only [Carries, Option.mem_def, ofNonterminal, functionResult, yields_steps,
    Option.some.injEq, forall_eq', given_iff, and_imp, reduceCtorEq, false_implies, implies_true,
    and_true, true_implies]
  exact fun _ attributes d _ _ _ hattributes t c' _ _ _ ht =>
    Node.every_iff.2 ⟨Node.made_of_none rfl, by
      simpa [Node.Below, or_imp, forall_and] using ⟨hattributes, ht⟩⟩

private theorem keepsOrigin_function : KeepsOrigin options start .function := by
  intro c hc
  simp only [ofNonterminal, function, yields_steps, given_iff, and_imp]
  intro name hname _ parameters d _ _ _ hparameters _ result d' _ _ _ hresult body c' _ _ _ hbody
  exact Node.every_iff.2 ⟨Node.made_of_kind hc hname rfl rfl hname, by
    simpa [Node.Below, or_imp, forall_and] using ⟨hparameters, hresult, hbody⟩⟩

private theorem keepsOrigin_item : KeepsOrigin options start .item := by
  intro c hc
  simp only [ofNonterminal, item, condition, yields_steps]
  split
  · rename_i hword
    simp only [yields_steps, Carries, given_iff, and_true, and_imp]
    exact fun name _ names d _ _ _ _ =>
      Node.every_of_no_children rfl (Node.made_of_kind hc hword rfl rfl hword)
  · rename_i hword
    simp only [yields_steps, Carries, given_iff, and_imp]
    exact fun name _ _ t d _ _ _ ht _ => Node.every_iff.2
      ⟨Node.made_of_kind hc hword rfl rfl hword, by simpa [Node.Below] using ht⟩
  · rename_i hword
    simp only [yields_steps, Carries, given_iff, and_imp]
    exact fun name _ _ members d _ _ _ hmembers _ => Node.every_iff.2
      ⟨Node.made_of_kind hc hword rfl rfl hword, by simpa [Node.Below] using hmembers⟩
  · simp only [yields_steps, Carries, given_iff, and_imp]
    exact fun f c' _ _ _ hf =>
      Node.every_iff.2 ⟨(Node.every_iff.1 hf).1, by simpa [Node.Below] using hf⟩
  · rename_i hword
    simp only [yields_steps, Carries, given_iff, and_imp]
    exact fun test d _ _ _ htest _ => Node.every_iff.2
      ⟨Node.made_of_kind hc hword rfl rfl (.inl hword),
        by simpa [Node.Below] using htest.withoutParentheses⟩
  · rename_i hword
    simp only [yields_steps, Carries, given_iff, and_imp]
    exact fun test d _ _ _ htest _ => Node.every_iff.2
      ⟨Node.made_of_kind hc hword rfl rfl (.inr hword),
        by simpa [Node.Below] using htest.withoutParentheses⟩
  · simp
  · simp
  · simp
  · split
    · rename_i kind hkind
      have hword := TokenKind.variableKind?_eq_some_iff.1 hkind
      simp only [yields_steps, Carries, given_iff, and_imp]
      intro v d _ _ _ hv hl hbelow _
      have hvariable := Node.every_variable hc hword ⟨hv, hl, hbelow⟩
      exact Node.every_iff.2
        ⟨(Node.every_iff.1 hvariable).1, by simpa [Node.Below] using hvariable⟩
    · simp

private theorem keepsOrigin_declaration : KeepsOrigin options start .declaration := by
  intro c _
  simp only [ofNonterminal, declaration, yields_steps, given_iff, and_imp]
  exact fun attributes d _ _ _ hattributes i c' _ _ _ hi =>
    Node.every_iff.2 ⟨(Node.every_iff.1 hi).1, by
      simpa [Node.Below, or_imp, forall_and] using ⟨hattributes, hi⟩⟩

private theorem keepsOrigin_declarations : KeepsOrigin options start .declarations := by
  intro c _
  simp only [ofNonterminal, declarations, yields_steps]
  split
  · simp
  · simp
  · simp only [yields_steps, Carries, List.mem_cons, forall_eq_or_imp, given_iff, and_imp]
    exact fun d e _ _ _ hd ds c' _ _ _ hds => ⟨hd, hds⟩

/-- The nodes of what is read for a nonterminal are made at places that are reached. -/
theorem keepsOrigin : (n : Nonterminal) → KeepsOrigin options start n
  | .attribute => keepsOrigin_attribute
  | .attributes => keepsOrigin_attributes
  | .type => keepsOrigin_type
  | .typeParameters name => keepsOrigin_typeParameters name
  | .constructorType => keepsOrigin_constructorType
  | .expression inAngles => keepsOrigin_expression inAngles
  | .operations inAngles => keepsOrigin_operations inAngles
  | .unary => keepsOrigin_unary
  | .suffixed => keepsOrigin_suffixed
  | .suffixes base => keepsOrigin_suffixes base
  | .primary => keepsOrigin_primary
  | .expressions => keepsOrigin_expressions
  | .arguments => keepsOrigin_arguments
  | .construction t l => keepsOrigin_construction t l
  | .block place => keepsOrigin_block place
  | .storage kind => keepsOrigin_storage kind
  | .ascription => keepsOrigin_ascription
  | .initializer kind => keepsOrigin_initializer kind
  | .variable kind l => keepsOrigin_variable kind l
  | .simpleStatement => keepsOrigin_simpleStatement
  | .plainStatement => keepsOrigin_plainStatement
  | .statement => keepsOrigin_statement
  | .statements => keepsOrigin_statements
  | .conditional => keepsOrigin_conditional
  | .alternatives => keepsOrigin_alternatives
  | .selection => keepsOrigin_selection
  | .clauses hasDefault => keepsOrigin_clauses hasDefault
  | .selectors => keepsOrigin_selectors
  | .forInitializer => keepsOrigin_forInitializer
  | .forCondition => keepsOrigin_forCondition
  | .forUpdate => keepsOrigin_forUpdate
  | .iteration => keepsOrigin_iteration
  | .repetition => keepsOrigin_repetition
  | .loop => keepsOrigin_loop
  | .loopBody => keepsOrigin_loopBody
  | .furtherNames => keepsOrigin_furtherNames
  | .bindings role => keepsOrigin_bindings role
  | .functionResult => keepsOrigin_functionResult
  | .function => keepsOrigin_function
  | .item => keepsOrigin_item
  | .declaration => keepsOrigin_declaration
  | .declarations => keepsOrigin_declarations

end Production

namespace Module

variable {tokens : List Token} {options : ReadOptions} {m : Module} {d : Declaration}

/-- Every node of a module, at any depth, is made at a place of the tokens where its own token
stands. -/
theorem made_of_ofTokens (h : Module.ofTokens tokens options = .ok m) (hd : d ∈ m) :
    (Node.declaration d).Every (Node.Made options (.ofTokens tokens)) := by
  obtain ⟨c', hm⟩ := ofTokens_eq_ok_iff.1 h
  have hkeeps : ∀ n, Nonterminal.KeepsOrigin options (.ofTokens tokens) n := Production.keepsOrigin
  have hcarries := Nonterminal.accepted_of_yields_comes (fun _ hc => hc.advance)
    (fun _ hc => hc.split) hkeeps .declarations (.refl (.ofTokens tokens))
  exact hcarries m c' hm d hd

/-- Every bitcast of a module, at any depth, is built somewhere in the tokens. -/
theorem builtFrom_of_ofTokens (h : Module.ofTokens tokens options = .ok m) (hd : d ∈ m) :
    (Node.declaration d).Every (Node.BuiltFrom options (.ofTokens tokens)) :=
  fun n hn => (made_of_ofTokens h hd n hn).builtFrom

end Module

end Wgsl
