import Wgsl.Proofs.Shape.Node
import Wgsl.Proofs.TokenKind
import Wgsl.Proofs.WholeFile
import Wgsl.Proofs.Yields

/-!
# What is read has its shape

For every nonterminal, what is read is sound (`Nonterminal.SoundResult`), if what its rule reads is:
one lemma for each rule (`Production.keepsShape`). Three results say more, because soundness
elsewhere needs it. Attributes end before what is no further attribute, so the type behind them has
none of its own. A type that begins with its name has none either, and has parameters if an angle
opens behind the name; that is what a value is built from. And the clauses of a `switch` know
whether there was a default before them.

Nothing is asked of the tokens or of the options.
-/

namespace Wgsl

/-- What is read is sound, from a cursor to another. -/
@[simp] def Nonterminal.SoundResult : (n : Nonterminal) → Cursor → n.Result → Cursor → Prop
  | .attribute, _, a, _ => (Node.attribute a).Sound
  | .attributes, c, as, c' =>
    (∀ a ∈ as, (Node.attribute a).Sound) ∧ c'.current.kind ≠ .symbol .attr ∧
      (c.current.kind ≠ .symbol .attr → as = [] ∧ c' = c)
  | .type, c, t, _ | .constructorType, c, t, _ =>
    (Node.type t).Sound ∧ (c.current.kind ≠ .symbol .attr → t.attributes = [] ∧
      (c.advance.current.kind = .symbol .lessThan → t.inner?.isSome))
  | .typeParameters name, _, p, _ =>
    p.type?.isSome ∧ ∀ attributes l, (∀ a ∈ attributes, (Node.attribute a).Sound) →
      (Node.type ⟨attributes, name, p, l⟩).Sound
  | .expression _, _, e, _ | .unary, _, e, _ | .suffixed, _, e, _ | .primary, _, e, _ =>
    (Node.expression e).Sound
  | .operations _, _, chain, _ => ∀ o ∈ chain, (Node.expression o.operand).Sound
  | .suffixes base, _, e, _ => (Node.expression base).Sound → (Node.expression e).Sound
  | .construction t _, _, e, _ =>
    (Node.type t).Sound → t.attributes = [] → t.inner?.isSome → (Node.expression e).Sound
  | .expressions, _, es, _ | .arguments, _, es, _ => ∀ e ∈ es, (Node.expression e).Sound
  | .block _, _, ss, _ | .statements, _, ss, _ => ∀ s ∈ ss, (Node.statement s).Sound
  | .storage kind, _, s, _ => s.isSome → kind = .var
  | .ascription, _, ascribed, _ => ∀ t ∈ ascribed, (Node.type t).Sound
  | .initializer kind, _, value, _ =>
    (kind = .let ∨ kind = .const → value.isSome) ∧ ∀ e ∈ value, (Node.expression e).Sound
  | .variable kind _, _, v, _ => v.kind = kind ∧ (Node.variable v).Sound
  | .simpleStatement, _, s, _ => (Node.simple s).Sound
  | .plainStatement, _, s, _ | .statement, _, s, _ => (Node.statement s).Sound
  | .conditional, _, f, _ | .selection, _, f, _ | .iteration, _, f, _ | .repetition, _, f, _
  | .loop, _, f, _ => (Node.compound f).Sound
  | .alternatives, _, x, _ =>
    (∀ a ∈ x.1, (Node.alternative a).Sound) ∧ ∀ ss ∈ x.2, ∀ s ∈ ss, (Node.statement s).Sound
  | .clauses hasDefault, _, cs, _ =>
    cs.countP (·.isDefault) ≤ (if hasDefault then 0 else 1) ∧ ∀ c ∈ cs, (Node.clause c).Sound
  | .selectors, _, es, _ => es ≠ [] ∧ ∀ e ∈ es, (Node.expression e).Sound
  | .forInitializer, _, first, _ => ∀ i ∈ first, (Node.forInitializer i).Sound
  | .forCondition, _, test, _ => ∀ e ∈ test, (Node.expression e).Sound
  | .forUpdate, _, update, _ => ∀ s ∈ update, (Node.simple s).Sound
  | .loopBody, _, x, _ =>
    (∀ s ∈ x.1, (Node.statement s).Sound) ∧ ∀ ss ∈ x.2, ∀ s ∈ ss, (Node.statement s).Sound
  | .furtherNames, _, _, _ => True
  | .bindings _, _, bs, _ => ∀ b ∈ bs, (Node.binding b).Sound
  | .functionResult, _, result, _ => ∀ r ∈ result, (Node.result r).Sound
  | .function, _, f, _ => (Node.function f).Sound
  | .item, _, i, _ => (Node.item i).Sound
  | .declaration, _, d, _ => (Node.declaration d).Sound
  | .declarations, _, ds, _ => ∀ d ∈ ds, (Node.declaration d).Sound

/-- The rule of a nonterminal shows that what it reads is sound. -/
abbrev Nonterminal.KeepsShape (options : ReadOptions) (n : Nonterminal) : Prop :=
  n.ShowsAccepted options (fun _ => True) SoundResult

namespace Production

open Rule Nonterminal

variable {options : ReadOptions}

/-! ## Attributes and types -/

private theorem keepsShape_attributes : KeepsShape options .attributes := by
  intro c _
  simp only [ofNonterminal, attributes, yields_steps, SoundResult, List.mem_cons, forall_eq_or_imp,
    reduceCtorEq, false_and, imp_false, Decidable.not_not, given_iff, true_and, and_imp,
    List.not_mem_nil, false_implies, implies_true, decide_eq_true_eq, and_true, imp_self]
  intro hat a d ha as c' has hend _
  exact ⟨⟨ha, has⟩, hend, hat⟩

private theorem keepsShape_attribute : KeepsShape options .attribute := by
  intro c _
  simp only [ofNonterminal, singleAttribute, yields_steps]
  intro _
  split
  · simp
  · simp only [yields_steps, SoundResult, Node.sound_attribute, given_iff, true_and,
      List.not_mem_nil, false_implies, implies_true, and_true, true_implies, Bool.false_eq_true]
    exact fun _ es d hes _ => hes

/-- A type that begins with its name has no attributes, and parameters if an angle opens behind the
name. -/
theorem keepsShape_type : KeepsShape options .type := by
  intro c _
  simp only [ofNonterminal, type, yields_steps, SoundResult, given_iff, true_and, and_imp,
    Bool.not_eq_true, Node.sound_type_none, true_implies, Bool.true_eq_false, false_implies,
    and_true, Bool.false_eq_true]
  intro attributes d hattributes _ hnone name hname
  refine ⟨fun hopen parameters c' hparameters hsound => ⟨hsound _ _ hattributes, fun hat => ?_⟩,
    fun hclosed => ⟨hattributes, fun hat => ?_⟩⟩
  · exact ⟨(hnone hat).1, fun _ => hparameters⟩
  · obtain ⟨rfl, rfl⟩ := hnone hat
    exact ⟨rfl, fun hopen => absurd hopen hclosed⟩

private theorem keepsShape_constructorType : KeepsShape options .constructorType := by
  intro c _
  simp only [ofNonterminal, constructorType, yields_steps, SoundResult, implies_true, and_true,
    given_iff, true_and, and_imp]
  exact fun t c' ht hbegins _ => ⟨ht, hbegins⟩

private theorem keepsShape_typeParameters (name : String) :
    KeepsShape options (.typeParameters name) := by
  intro c _
  simp only [ofNonterminal, typeParameters, Bool.or_eq_true, yields_steps, SoundResult,
    Bool.not_eq_true, yields_furtherParameter, Bool.false_eq_true, false_implies, true_implies,
    true_and, given_iff, and_imp, not_or]
  constructor
  · intro hptr storageClass _ _ target d htarget _
    have hsound (accessMode : Option String) (attributes : List Attribute) (l : Location)
        (hattributes : ∀ a ∈ attributes, (Node.attribute a).Sound) :
        (Node.type ⟨attributes, name, .pointer storageClass target accessMode, l⟩).Sound :=
      (Node.sound_type_pointer hptr).2 ⟨hattributes, htarget⟩
    refine ⟨fun _ => ⟨fun _ accessMode _ => ?_, fun _ => ?_⟩, fun _ => ?_⟩
    · exact yields_closeParameters_of_any fun _ => ⟨rfl, hsound _⟩
    · exact yields_closeParameters_of_any fun _ => ⟨rfl, hsound _⟩
    · exact yields_closeParameters_of_any fun _ => ⟨rfl, hsound _⟩
  · intro hptr element d helement _
    have hsound (accessMode : Option String) (haccess : namesArray name → accessMode = none)
        (attributes : List Attribute) (l : Location)
        (hattributes : ∀ a ∈ attributes, (Node.attribute a).Sound) :
        (Node.type ⟨attributes, name, .element element accessMode, l⟩).Sound :=
      (Node.sound_type_element hptr haccess).2 ⟨hattributes, helement⟩
    refine ⟨fun _ => ⟨fun _ => ⟨fun _ count _ hcount => ?_, fun harray _ accessMode _ => ?_⟩,
      fun _ => ?_⟩, fun _ => ?_⟩
    · exact yields_closeParameters_of_any
        fun _ => ⟨rfl, fun _ _ h => (Node.sound_type_counted hptr).2 ⟨h, helement, hcount⟩⟩
    · exact yields_closeParameters_of_any fun _ => ⟨rfl, hsound _ (by simp [harray])⟩
    · exact yields_closeParameters_of_any fun _ => ⟨rfl, hsound _ fun _ => rfl⟩
    · exact yields_closeParameters_of_any fun _ => ⟨rfl, hsound _ fun _ => rfl⟩

/-! ## Expressions -/

private theorem keepsShape_expression (inAngles : Bool) :
    KeepsShape options (.expression inAngles) := by
  intro c _
  simp only [ofNonterminal, expression, yields_steps, given_iff, true_and]
  exact fun first d hfirst chain c' hchain => Node.sound_ofChain hfirst hchain

private theorem keepsShape_operations (inAngles : Bool) :
    KeepsShape options (.operations inAngles) := by
  intro c _
  simp only [ofNonterminal, operations, Bool.and_eq_true, yields_steps]
  split
  · simp
  · simp only [yields_steps, SoundResult, List.not_mem_nil, false_implies, implies_true,
      List.mem_cons, forall_eq_or_imp, given_iff, true_and]
    exact fun _ operand d hoperand chain c' hchain => ⟨hoperand, hchain⟩

private theorem keepsShape_unary : KeepsShape options .unary := by
  intro c _
  simp only [ofNonterminal, unary, yields_steps]
  split <;> simp

private theorem keepsShape_suffixed : KeepsShape options .suffixed := by
  intro c _
  simp only [ofNonterminal, suffixed, yields_steps, given_iff, true_and]
  exact fun base d hbase e c' he => he hbase

private theorem keepsShape_suffixes (base : Expression) : KeepsShape options (.suffixes base) := by
  intro c _
  simp only [ofNonterminal, suffixes, yields_steps]
  split
  · simp only [yields_steps, given_iff, SoundResult, Node.sound_index, and_imp, true_and]
    exact fun index d hindex _ e c' he hbase => he hbase hindex
  · simp
  · split
    · simp only [yields_steps, given_iff, SoundResult, Node.sound_call, true_and,
        Node.sound_identifier, true_implies]
      exact fun arguments d harguments e c' he => he harguments
    · simp
  · simp

private theorem keepsShape_construction (t : TypeSpecifier) (l : Location) :
    KeepsShape options (.construction t l) := by
  intro c _
  simp only [ofNonterminal, construction, yields_steps, given_iff, true_and]
  intro arguments d harguments
  split
  · rename_i htarget
    simp only [yields_steps, SoundResult, Node.sound_construct]
    intro ht hattributes hinner
    have hname : t.name ≠ "bitcast" := by
      intro hname
      rw [TypeSpecifier.bitcastTarget?, if_pos hname] at htarget
      simp [htarget] at hinner
    exact ⟨TypeSpecifier.beginsValue_of_inner? hattributes hinner hname, ht, harguments⟩
  · rename_i target value htarget
    simp only [yields_steps, SoundResult, Node.sound_bitcast]
    intro ht _ _
    have hinner := (TypeSpecifier.bitcastTarget?_eq_some_iff.1 htarget).2
    exact ⟨ht.inner hinner, harguments value (by simp)⟩
  · simp

private theorem keepsShape_expressions : KeepsShape options .expressions := by
  intro c _
  simp only [ofNonterminal, expressions, yields_steps, SoundResult, List.not_mem_nil, false_implies,
    implies_true, Bool.not_eq_true, List.mem_cons, forall_eq_or_imp, given_iff, true_and,
    true_implies, Bool.true_eq_false, and_true, Bool.false_eq_true]
  exact fun _ e d he => ⟨fun _ es c' hes => ⟨he, hes⟩, fun _ => he⟩

private theorem keepsShape_arguments : KeepsShape options .arguments := by
  intro c _
  simp only [ofNonterminal, arguments, yields_steps, given_iff, true_and]
  exact fun _ es d hes _ => hes

private theorem keepsShape_primary : KeepsShape options .primary := by
  intro c _
  simp only [ofNonterminal, primary, yields_steps]
  split
  · simp
  · simp
  · simp
  · simp only [yields_steps, SoundResult, given_iff, true_and]
    intro inner d hinner _
    split <;> simpa using hinner
  · rename_i name hname
    simp only [yields_steps]
    split
    · rename_i hopen
      rw [Cursor.following_eq] at hopen
      simp only [yields_steps, given_iff, SoundResult, hname, ne_eq, reduceCtorEq,
        not_false_eq_true, hopen, true_implies, and_imp, Node.sound_identifier, and_true]
      exact fun made d hmade hattributes hinner e c' he => he hmade hattributes hinner
    · simp only [yields_steps, SoundResult, Node.sound_construct, Node.sound_type_none,
        List.not_mem_nil, false_implies, implies_true, true_and, given_iff, Node.sound_identifier,
        and_true]
      exact fun hconstructible arguments d harguments => ⟨⟨rfl, hconstructible⟩, harguments⟩
    · simp
  · simp

/-! ## Variables -/

private theorem keepsShape_block (place : String) : KeepsShape options (.block place) := by
  intro c _
  simp only [ofNonterminal, block, yields_steps, given_iff, true_and]
  exact fun _ ss d hss _ => hss

private theorem keepsShape_storage (kind : VariableKind) : KeepsShape options (.storage kind) := by
  intro c _
  simp +contextual [storage]

private theorem keepsShape_ascription : KeepsShape options .ascription := by
  intro c _
  simp only [ofNonterminal, ascription, yields_steps, SoundResult, Option.mem_def,
    Option.some.injEq, forall_eq', given_iff, and_imp, reduceCtorEq, false_implies, implies_true,
    and_true, true_implies]
  exact fun _ t c' ht _ => ht

private theorem keepsShape_initializer (kind : VariableKind) :
    KeepsShape options (.initializer kind) := by
  intro c _
  simp [initializer]

private theorem keepsShape_variable (kind : VariableKind) (l : Location) :
    KeepsShape options (.variable kind l) := by
  intro c _
  simp only [ofNonterminal, variableDeclaration, Bool.and_eq_true, Option.isNone_iff_eq_none,
    yields_steps, implies_true, not_and, SoundResult, true_and, given_iff, and_imp]
  intro stored d hstored name _ type d' htype value c' hvalue hsound hsome
  refine Node.sound_variable.2 ⟨⟨?_, hvalue, ?_, ?_⟩, htype, hsound⟩
  · cases type with
    | none => exact .inr (Option.isSome_iff_ne_none.2 (hsome rfl))
    | some t => exact .inl rfl
  · intro h
    cases stored with
    | none => cases h
    | some _ => exact hstored rfl
  · intro h
    cases stored with
    | none => cases h
    | some _ => rfl

/-! ## Statements -/

private theorem keepsShape_simpleStatement : KeepsShape options .simpleStatement := by
  intro c _
  simp only [ofNonterminal, simpleStatement, yields_steps, given_iff, true_and]
  intro target d htarget
  split
  · simp only [yields_steps, SoundResult, Node.sound_assign, given_iff, true_and]
    exact fun value c' hvalue => ⟨htarget, hvalue⟩
  · simpa using htarget
  · simpa using htarget
  · simp

private theorem keepsShape_plainStatement : KeepsShape options .plainStatement := by
  intro c _
  simp only [ofNonterminal, plainStatement, condition, yields_steps]
  split
  · simp only [yields_steps, SoundResult, Node.sound_return, Option.mem_def, reduceCtorEq,
      false_implies, implies_true, Bool.not_eq_true, Option.some.injEq, forall_eq', given_iff,
      true_and, true_implies]
    exact fun _ value d hvalue _ => hvalue
  · simp only [yields_steps, SoundResult, Node.sound_breakIf, given_iff, true_and, Node.sound_break,
      implies_true, and_true]
    exact fun _ test d htest _ => htest.withoutParentheses
  · simp
  · simp
  · simp only [yields_steps, SoundResult, Node.sound_statement_assertion, given_iff, true_and]
    exact fun test d htest _ => htest.withoutParentheses
  · simp only [yields_steps, SoundResult, Node.sound_statement_assertion, given_iff, true_and]
    exact fun test d htest _ => htest.withoutParentheses
  · split
    · rename_i kind hkind
      simp only [yields_steps, SoundResult, Node.sound_statement_variable, given_iff, true_and,
        and_imp]
      intro declared d hkind' hdeclared _
      exact ⟨hkind' ▸ (TokenKind.localVariableKind?_eq_some_iff.1 hkind).2, hdeclared⟩
    · simp only [yields_steps, SoundResult, Node.sound_statement_simple, given_iff, true_and]
      exact fun form d hform _ => hform

private theorem keepsShape_statement : KeepsShape options .statement := by
  intro c _
  simp only [ofNonterminal, statement, yields_steps, given_iff, SoundResult, true_and, and_imp]
  intro attributes d hattributes _ _
  split
  · simp only [yields_steps, SoundResult, Node.sound_compound, given_iff, true_and]
    exact fun form c' hform => ⟨hattributes, hform⟩
  · simp only [yields_steps, SoundResult, Node.sound_compound, given_iff, true_and]
    exact fun form c' hform => ⟨hattributes, hform⟩
  · simp only [yields_steps, SoundResult, Node.sound_compound, given_iff, true_and]
    exact fun form c' hform => ⟨hattributes, hform⟩
  · simp only [yields_steps, SoundResult, Node.sound_compound, given_iff, true_and]
    exact fun form c' hform => ⟨hattributes, hform⟩
  · simp only [yields_steps, SoundResult, Node.sound_compound, given_iff, true_and]
    exact fun form c' hform => ⟨hattributes, hform⟩
  · simp only [yields_steps, SoundResult, Node.sound_compound, Node.sound_block, given_iff,
      true_and]
    exact fun ss c' hss => ⟨hattributes, hss⟩
  · simp

private theorem keepsShape_statements : KeepsShape options .statements := by
  intro c _
  simp only [ofNonterminal, statements, yields_steps]
  split
  · simp
  · simp
  · simp
  · simp only [yields_steps, SoundResult, List.mem_cons, forall_eq_or_imp, given_iff, true_and]
    exact fun s d hs ss c' hss => ⟨hs, hss⟩

private theorem keepsShape_conditional : KeepsShape options .conditional := by
  intro c _
  simp only [ofNonterminal, conditional, condition, yields_steps, SoundResult, Node.sound_if,
    given_iff, true_and, and_imp, Prod.forall]
  exact fun test d htest body d' hbody alternatives otherwise c' halternatives hotherwise =>
    ⟨htest.withoutParentheses, hbody, halternatives, hotherwise⟩

private theorem keepsShape_alternatives : KeepsShape options .alternatives := by
  intro c _
  simp only [ofNonterminal, alternatives, condition, yields_steps, SoundResult, List.mem_cons,
    forall_eq_or_imp, Node.sound_alternative, Option.mem_def, given_iff, true_and, and_imp,
    Prod.forall, List.not_mem_nil, false_implies, implies_true, Option.some.injEq, forall_eq',
    imp_self, and_true, reduceCtorEq]
  exact fun _ _ test d htest body d' hbody alternatives otherwise c' halternatives hotherwise =>
    ⟨⟨⟨htest.withoutParentheses, hbody⟩, halternatives⟩, hotherwise⟩

private theorem keepsShape_selection : KeepsShape options .selection := by
  intro c _
  simp only [ofNonterminal, selection, condition, yields_steps, SoundResult, Node.sound_switch,
    given_iff, true_and, and_imp]
  exact fun selector d hselector _ clauses c' hcount hclauses _ =>
    ⟨hcount, hselector.withoutParentheses, hclauses⟩

private theorem keepsShape_clauses (hasDefault : Bool) :
    KeepsShape options (.clauses hasDefault) := by
  intro c _
  simp only [ofNonterminal, clauses, yields_steps]
  split
  · simp
  · simp only [yields_steps, SoundResult, List.mem_cons, forall_eq_or_imp, Node.sound_case,
      given_iff, true_and, and_imp, Classical.imp_and_neg_imp_iff]
    intro selectors d hne hselectors body d' hbody rest c' hcount hrest
    rw [List.countP_cons_of_neg (by simp [Clause.isDefault])]
    exact ⟨hcount, ⟨hne, hselectors, hbody⟩, hrest⟩
  · simp only [yields_steps, implies_true, Bool.not_eq_true, SoundResult, List.mem_cons,
      forall_eq_or_imp, Node.sound_default, given_iff, true_and, and_imp,
      Classical.imp_and_neg_imp_iff]
    intro hfirst body d hbody rest c' hnone hrest
    have hzero : rest.countP (·.isDefault) = 0 := List.countP_eq_zero.2 (by simpa using hnone)
    rw [List.countP_cons_of_pos rfl, hzero, hfirst]
    exact ⟨Nat.le_refl 1, hbody, hrest⟩
  · simp

private theorem keepsShape_selectors : KeepsShape options .selectors := by
  intro c _
  simp only [ofNonterminal, selectors, yields_steps, SoundResult, ne_eq, not_false_eq_true,
    List.mem_cons, List.not_mem_nil, or_false, forall_eq, true_and, not_or, reduceCtorEq,
    forall_eq_or_imp, given_iff, and_imp, Bool.not_eq_true, true_implies, false_implies, and_true]
  refine fun e d he => ⟨fun _ => ⟨fun _ => he, fun _ _ es c' _ hes => ⟨he, hes⟩⟩, fun _ => he⟩

private theorem keepsShape_forInitializer : KeepsShape options .forInitializer := by
  intro c _
  simp only [ofNonterminal, forInitializer, yields_steps, SoundResult, Option.mem_def, reduceCtorEq,
    false_implies, implies_true, true_and]
  intro _
  split
  · rename_i kind hkind
    simp only [yields_steps, SoundResult, Option.mem_def, Option.some.injEq, forall_eq',
      Node.sound_forInitializer_variable, given_iff, true_and, and_imp]
    intro declared c' hkind' hdeclared
    exact ⟨hkind' ▸ (TokenKind.localVariableKind?_eq_some_iff.1 hkind).2, hdeclared⟩
  · simp

private theorem keepsShape_forCondition : KeepsShape options .forCondition := by
  intro c _
  simp [forCondition]

private theorem keepsShape_forUpdate : KeepsShape options .forUpdate := by
  intro c _
  simp [forUpdate]

private theorem keepsShape_iteration : KeepsShape options .iteration := by
  intro c _
  simp only [ofNonterminal, iteration, yields_steps, SoundResult, Node.sound_for, given_iff,
    true_and]
  exact fun _ first d hfirst _ test d' htest _ update d'' hupdate _ body c' hbody =>
    ⟨hfirst, htest, hupdate, hbody⟩

private theorem keepsShape_repetition : KeepsShape options .repetition := by
  intro c _
  simp only [ofNonterminal, repetition, condition, yields_steps, SoundResult, Node.sound_while,
    given_iff, true_and]
  exact fun test d htest body c' hbody => ⟨htest.withoutParentheses, hbody⟩

private theorem keepsShape_loop : KeepsShape options .loop := by
  intro c _
  simp only [ofNonterminal, loop, yields_steps, SoundResult, Node.sound_loop, given_iff, true_and,
    and_imp, Prod.forall]
  exact fun _ body continuing d hbody hcontinuing _ => ⟨hbody, hcontinuing⟩

private theorem keepsShape_loopBody : KeepsShape options .loopBody := by
  intro c _
  simp only [ofNonterminal, loopBody, yields_steps]
  split
  · simp
  · simp
  · simp
  · simp only [yields_steps, SoundResult, List.mem_cons, forall_eq_or_imp, given_iff, true_and,
      and_imp, Prod.forall]
    exact fun first d hfirst body continuing c' hbody hcontinuing =>
      ⟨⟨hfirst, hbody⟩, hcontinuing⟩

/-! ## Declarations -/

private theorem keepsShape_bindings (role : BindingRole) : KeepsShape options (.bindings role) := by
  intro c _
  simp only [ofNonterminal, bindings, yields_steps, SoundResult, List.not_mem_nil, false_implies,
    implies_true, Bool.not_eq_true, List.mem_cons, forall_eq_or_imp, Node.sound_binding, given_iff,
    true_and, true_implies, Bool.true_eq_false, and_true, Bool.false_eq_true, and_imp]
  exact fun _ attributes d hattributes _ _ name _ _ t d' ht _ =>
    ⟨fun _ bs c' hbs => ⟨⟨hattributes, ht⟩, hbs⟩, fun _ => ⟨hattributes, ht⟩⟩

private theorem keepsShape_functionResult : KeepsShape options .functionResult := by
  intro c _
  simp only [ofNonterminal, functionResult, yields_steps, SoundResult, Option.mem_def,
    Option.some.injEq, forall_eq', Node.sound_result, given_iff, and_imp, reduceCtorEq,
    false_implies, implies_true, and_true, true_implies]
  -- the attributes end before what is no further attribute, and there the type begins
  exact fun _ attributes d hattributes hend _ t c' ht hbegins =>
    ⟨(hbegins hend).1, hattributes, ht⟩

private theorem keepsShape_function : KeepsShape options .function := by
  intro c _
  simp only [ofNonterminal, function, yields_steps, SoundResult, Node.sound_function, given_iff,
    true_and]
  exact fun name _ _ parameters d hparameters _ result d' hresult body c' hbody =>
    ⟨hparameters, hresult, hbody⟩

private theorem keepsShape_item : KeepsShape options .item := by
  intro c _
  simp only [ofNonterminal, item, condition, String.reduceAppend, yields_steps]
  split
  · simp
  · simp only [yields_steps, SoundResult, Node.sound_alias, given_iff, true_and, and_imp]
    exact fun name _ _ t d ht _ _ => ht
  · simp only [yields_steps, SoundResult, Node.sound_struct, given_iff, true_and]
    exact fun name _ _ members d hmembers _ => hmembers
  · simp
  · simp only [yields_steps, SoundResult, Node.sound_item_assertion, given_iff, true_and]
    exact fun test d htest _ => htest.withoutParentheses
  · simp only [yields_steps, SoundResult, Node.sound_item_assertion, given_iff, true_and]
    exact fun test d htest _ => htest.withoutParentheses
  · simp
  · simp
  · simp
  · split
    · simp only [yields_steps, SoundResult, Node.sound_item_variable, given_iff, true_and, and_imp]
      exact fun declared d _ hdeclared _ => hdeclared
    · simp

private theorem keepsShape_declaration : KeepsShape options .declaration := by
  intro c _
  simp only [ofNonterminal, declaration, yields_steps, SoundResult, Node.sound_declaration,
    given_iff, true_and, and_imp]
  exact fun attributes d hattributes _ _ declared c' hdeclared => ⟨hattributes, hdeclared⟩

private theorem keepsShape_declarations : KeepsShape options .declarations := by
  intro c _
  simp only [ofNonterminal, declarations, yields_steps]
  split
  · simp
  · simp
  · simp only [yields_steps, SoundResult, List.mem_cons, forall_eq_or_imp, given_iff, true_and]
    exact fun d e hd ds c' hds => ⟨hd, hds⟩

private theorem keepsShape_furtherNames : KeepsShape options .furtherNames := by
  intro c _
  simp [furtherNames]

/-- What is read for every nonterminal is sound. -/
theorem keepsShape (n : Nonterminal) : KeepsShape options n :=
  match n with
  | .attribute => keepsShape_attribute
  | .attributes => keepsShape_attributes
  | .type => keepsShape_type
  | .typeParameters name => keepsShape_typeParameters name
  | .constructorType => keepsShape_constructorType
  | .expression inAngles => keepsShape_expression inAngles
  | .operations inAngles => keepsShape_operations inAngles
  | .unary => keepsShape_unary
  | .suffixed => keepsShape_suffixed
  | .suffixes base => keepsShape_suffixes base
  | .primary => keepsShape_primary
  | .expressions => keepsShape_expressions
  | .arguments => keepsShape_arguments
  | .construction t l => keepsShape_construction t l
  | .block place => keepsShape_block place
  | .storage kind => keepsShape_storage kind
  | .ascription => keepsShape_ascription
  | .initializer kind => keepsShape_initializer kind
  | .variable kind l => keepsShape_variable kind l
  | .simpleStatement => keepsShape_simpleStatement
  | .plainStatement => keepsShape_plainStatement
  | .statement => keepsShape_statement
  | .statements => keepsShape_statements
  | .conditional => keepsShape_conditional
  | .alternatives => keepsShape_alternatives
  | .selection => keepsShape_selection
  | .clauses hasDefault => keepsShape_clauses hasDefault
  | .selectors => keepsShape_selectors
  | .forInitializer => keepsShape_forInitializer
  | .forCondition => keepsShape_forCondition
  | .forUpdate => keepsShape_forUpdate
  | .iteration => keepsShape_iteration
  | .repetition => keepsShape_repetition
  | .loop => keepsShape_loop
  | .loopBody => keepsShape_loopBody
  | .furtherNames => keepsShape_furtherNames
  | .bindings role => keepsShape_bindings role
  | .functionResult => keepsShape_functionResult
  | .function => keepsShape_function
  | .item => keepsShape_item
  | .declaration => keepsShape_declaration
  | .declarations => keepsShape_declarations

end Production

/-- Every node of a module, at any depth, has its shape. -/
theorem Module.shaped_of_ofTokens {tokens : List Token} {options : ReadOptions} {m : Module}
    (h : Module.ofTokens tokens options = .ok m) {d : Declaration} (hd : d ∈ m) {n : Node}
    (hn : n.Occurs (.declaration d)) : n.Shaped := by
  obtain ⟨c', hm⟩ := ofTokens_eq_ok_iff.1 h
  have hkept : ∀ n, Nonterminal.KeepsShape options n := Production.keepsShape
  have hshown : (Nonterminal.declarations.outcome options (.ofTokens tokens)).IfAccepted
      fun ds _ => ∀ d ∈ ds, (Node.declaration d).Sound :=
    Nonterminal.accepted_of_yields (fun _ h => h) (fun _ h => h) hkept .declarations trivial
  exact hshown m c' hm d hd n hn

/-- A module of one variable whose value is a construction in kept parentheses has been read. -/
def Module.readsGroupedConstruct : Except ParseError Module → Bool
  | .ok [⟨_, .variable ⟨_, _, _, _, some (.grouped (.construct ..) _), _⟩⟩] => true
  | _ => false

/-- In `let x = (array<f32, 2>(0, y));` the type of the value stands inside the kept parentheses. -/
theorem Module.shaped_of_ofTokens_construct :
    ∃ d made arguments l,
      Module.ofTokens (tokenize "let x = (array<f32, 2>(0, y));") ⟨true⟩ = .ok [d] ∧
        (Node.expression (.construct made arguments l)).Occurs (.declaration d) ∧
        (Node.expression (.construct made arguments l)).Shaped := by
  have hread : readsGroupedConstruct
      (Module.ofTokens (tokenize "let x = (array<f32, 2>(0, y));") ⟨true⟩) = true := by
    decide +kernel
  unfold readsGroupedConstruct at hread
  split at hread
  · rename_i attributes kind storage name type made arguments l l' l'' hm
    have hoccurs : (Node.expression (.construct made arguments l)).Occurs (.declaration
        ⟨attributes, .variable ⟨kind, storage, name, type,
          some (.grouped (.construct made arguments l) l'), l''⟩⟩) :=
      .inside (List.mem_append_right _ (List.mem_singleton_self _))
        (.inside (List.mem_singleton_self _)
          (.inside (List.mem_append_right _ (List.mem_singleton_self _))
            (.inside (List.mem_singleton_self _) .here)))
    exact ⟨_, made, arguments, l, hm, hoccurs, shaped_of_ofTokens hm List.mem_cons_self hoccurs⟩
  · cases hread

end Wgsl
