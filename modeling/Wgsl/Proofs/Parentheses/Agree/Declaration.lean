import Wgsl.Proofs.Parentheses.Agree.Statement
import Wgsl.Proofs.TokenOrder

/-!
# Parentheses dropped and parentheses kept: declarations

With the rules of declarations the outcomes of all rules agree (`agrees`). For whole texts this says
two things. What is read with parentheses kept is read with parentheses dropped, as the same module
without them (`Module.ofSource_eq_ungrouped`). The converse fails for calls with parentheses around
their name or, as statements, around the whole of them, and only for those
(`Module.exists_ofSource_keeping_iff`).
-/

namespace Wgsl

namespace Production

open Rule Nonterminal Cursor

variable (opens : Location → Prop)

private theorem agrees_furtherNames : ShowsAgree opens .furtherNames := fun _ _ _ =>
  (Agrees.accept _).bind fun _ _ => .ite
    ((Agrees.sees _).bind fun _ _ => .ite (.pure rfl)
      ((Agrees.identifier _).bind fun _ _ => (Agrees.parse .furtherNames trivial).bind
        fun _ _ => .pure rfl))
    (.pure rfl)

private theorem agrees_bindings (role : BindingRole) :
    ShowsAgree opens (.bindings role) := fun _ _ _ =>
  (Agrees.sees _).bind fun _ _ => .ite (.pure rfl)
    ((Agrees.parse .attributes trivial).bind fun _ _ => .look <|
      (Agrees.identifier _).bind fun _ _ => (Agrees.expect _ _).bind fun _ _ =>
      (Agrees.parse .type trivial).bind fun _ _ => (Agrees.accept _).bind fun _ _ => .ite
        ((Agrees.parse (.bindings role) trivial).bind fun _ _ => .pure rfl)
        (.pure rfl))

private theorem agrees_functionResult : ShowsAgree opens .functionResult := fun _ _ _ =>
  (Agrees.accept _).bind fun _ _ => .ite
    ((Agrees.parse .attributes trivial).bind fun _ _ => (Agrees.parse .type trivial).bind
      fun _ _ => .pure rfl)
    (.pure rfl)

private theorem agrees_function : ShowsAgree opens .function := fun _ _ _ =>
  .look <| (Agrees.identifier _).bind fun _ _ => (Agrees.expect _ _).bind fun _ _ =>
    (Agrees.parse (.bindings .parameter) trivial).bind fun _ _ => (Agrees.expect _ _).bind
    fun _ _ => (Agrees.parse .functionResult trivial).bind fun _ _ =>
      (Agrees.parse (.block _) trivial).bindCalls
        (fun _ _ hbody => .pureCalls rfl hbody) fun _ _ h => h

private theorem agrees_item : ShowsAgree opens .item := by
  intro c _ _
  refine .look ?_
  split
  · exact Agrees.skip.bind fun _ _ => (Agrees.identifier _).bind fun _ _ =>
      (Agrees.parse .furtherNames trivial).bind fun _ _ => (Agrees.expect _ _).bind fun _ _ =>
        .pureCalls rfl not_callsAt_nil
  · exact Agrees.skip.bind fun _ _ => (Agrees.identifier _).bind fun _ _ =>
      (Agrees.expect _ _).bind fun _ _ => (Agrees.parse .type trivial).bind fun _ _ =>
      (Agrees.expect _ _).bind fun _ _ => .pureCalls rfl not_callsAt_nil
  · exact Agrees.skip.bind fun _ _ => (Agrees.identifier _).bind fun _ _ =>
      (Agrees.expect _ _).bind fun _ _ => (Agrees.parse (.bindings .member) trivial).bind
      fun _ _ => (Agrees.expect _ _).bind fun _ _ => .pureCalls rfl not_callsAt_nil
  · exact Agrees.skip.bind fun _ _ => (Agrees.parse .function trivial).bindCalls
      (fun _ _ hf => .pureCalls rfl hf) fun _ _ h => h
  · exact Agrees.skip.bind fun _ _ => (agrees_condition opens).bind fun _ _ =>
      (Agrees.expect _ _).bind fun _ _ => .pureCalls rfl not_callsAt_nil
  · exact Agrees.skip.bind fun _ _ => (agrees_condition opens).bind fun _ _ =>
      (Agrees.expect _ _).bind fun _ _ => .pureCalls rfl not_callsAt_nil
  · exact .fail _ _
  · exact .fail _ _
  · exact .fail _ _
  · split
    · exact Agrees.skip.bind fun _ _ => (Agrees.parse (.variable _ _) trivial).bind fun _ _ =>
        (Agrees.expect _ _).bind fun _ _ => .pureCalls rfl not_callsAt_nil
    · exact .unexpected _

private theorem agrees_declaration : ShowsAgree opens .declaration := fun _ _ _ =>
  (Agrees.parse .attributes trivial).bind fun _ _ => (Agrees.parse .item trivial).bindCalls
    (fun _ _ hitem => .pureCalls rfl hitem) fun _ _ h => h

private theorem agrees_declarations : ShowsAgree opens .declarations := by
  intro c _ _
  refine .look ?_
  split
  · exact Agrees.skip.bind fun _ _ => .parse .declarations trivial
  · exact .pureCalls rfl not_callsAt_nil
  · exact (Agrees.parse .declaration trivial).bindCalls
      (fun _ _ hd => (Agrees.parse .declarations trivial).bindCalls
        (fun _ _ hds => .pureCalls rfl (not_callsAt_append hd hds)) fun _ _ h => h.right)
      fun _ _ h => .behind fun _ _ => h.left

/-- The outcomes of every rule agree. -/
theorem agrees : (n : Nonterminal) → ShowsAgree opens n
  | .attribute => agrees_attribute opens
  | .attributes => agrees_attributes opens
  | .type => agrees_type opens
  | .typeParameters typeName => agrees_typeParameters opens typeName
  | .constructorType => agrees_constructorType opens
  | .expression inAngles => agrees_expression opens inAngles
  | .operations inAngles => agrees_operations opens inAngles
  | .unary => agrees_unary opens
  | .suffixed => agrees_suffixed opens
  | .suffixes base => agrees_suffixes opens base
  | .primary => agrees_primary opens
  | .expressions => agrees_expressions opens
  | .arguments => agrees_arguments opens
  | .construction type l => agrees_construction opens type l
  | .block place => agrees_block opens place
  | .storage kind => agrees_storage opens kind
  | .ascription => agrees_ascription opens
  | .initializer kind => agrees_initializer opens kind
  | .variable kind l => agrees_variable opens kind l
  | .simpleStatement => agrees_simpleStatement opens
  | .plainStatement => agrees_plainStatement opens
  | .statement => agrees_statement opens
  | .statements => agrees_statements opens
  | .conditional => agrees_conditional opens
  | .alternatives => agrees_alternatives opens
  | .selection => agrees_selection opens
  | .clauses hasDefault => agrees_clauses opens hasDefault
  | .selectors => agrees_selectors opens
  | .forInitializer => agrees_forInitializer opens
  | .forCondition => agrees_forCondition opens
  | .forUpdate => agrees_forUpdate opens
  | .iteration => agrees_iteration opens
  | .repetition => agrees_repetition opens
  | .loop => agrees_loop opens
  | .loopBody => agrees_loopBody opens
  | .furtherNames => agrees_furtherNames opens
  | .bindings role => agrees_bindings opens role
  | .functionResult => agrees_functionResult opens
  | .function => agrees_function opens
  | .item => agrees_item opens
  | .declaration => agrees_declaration opens
  | .declarations => agrees_declarations opens

end Production

/-! ## Modules -/

namespace Module

/-- The locations of the calls that are statements. -/
def callLocations (m : Module) : List Location := m.flatMap Declaration.callLocations

/-- A module without its parentheses. -/
def ungrouped (m : Module) : Module := m.map Declaration.ungrouped

variable {source : String} {m : Module}

/-- In a text, parentheses open where its tokens that open them are. -/
def opensIn (source : String) (l : Location) : Prop :=
  ∃ t ∈ tokenize source, t.kind = .symbol .parenLeft ∧ t.location = l

/-- In a source without adjacent angles, a `(` is seen at every location where one opens. -/
theorem clear_ofTokens (h : (tokenize source).IsChain Token.Apart) :
    (Cursor.ofTokens (tokenize source)).Clear (opensIn source) := by
  obtain ⟨l, hl⟩ := tokenize_eq source
  have hmem : ∀ t ∈ (Cursor.ofTokens (tokenize source)).upcoming, t ∈ tokenize source := by
    intro t ht
    rw [hl]
    exact List.mem_append_left _ ht
  constructor
  · rw [hl] at h
    exact h.left_of_append
  · intro t ht
    refine ⟨?_, fun hopen => ⟨t, hmem t ht, hopen, rfl⟩⟩
    rintro ⟨u, hu, hopen, hlocation⟩
    rwa [← eq_of_location_eq hu (hmem t ht) hlocation]

/-- Where parentheses are kept, the tokens of a text are apart. -/
theorem apart_of_ofSource (h : Module.ofSource source .keeping = .ok m) :
    (tokenize source).IsChain Token.Apart := by
  obtain ⟨l, hl⟩ := tokenize_eq source
  have hapart : ((tokenize source).takeWhile (·.kind ≠ .endOfFile)).IsChain Token.Apart :=
    apart_of_ofTokens h
  rw [hl]
  refine List.isChain_append.2 ⟨hapart, List.isChain_singleton _, ?_⟩
  intro t _ u hu _ hopen
  cases hu
  cases hopen

/-- Where the tokens of a text are apart, what it comes to agrees. -/
theorem agreesWith_of_apart (h : (tokenize source).IsChain Token.Apart) :
    (Nonterminal.declarations.outcome {} (.ofTokens (tokenize source))).AgreesWith
      (opensIn source) ungrouped callLocations
      (Nonterminal.declarations.outcome .keeping (.ofTokens (tokenize source))) :=
  Nonterminal.agrees_of_shows (Production.agrees (opensIn source)) .declarations
    (clear_ofTokens h) trivial

/-- Where parentheses are kept and a text is read, so it is where they are dropped, and no call that
is a statement begins with a parenthesis. -/
theorem ofSource_eq_and_not_callsAt (h : Module.ofSource source .keeping = .ok m) :
    Module.ofSource source = .ok m.ungrouped ∧
      ¬CallsAt (opensIn source) m.ungrouped.callLocations := by
  have hagrees := agreesWith_of_apart (apart_of_ofSource h)
  obtain ⟨c', hc'⟩ := ofTokens_eq_ok_iff.1 h
  rw [hc'] at hagrees
  exact ⟨ofTokens_eq_ok_iff.2 ⟨c', hagrees.1⟩, hagrees.2⟩

/-- What is read with parentheses kept is read with parentheses dropped, as the same module without
its parentheses. -/
theorem ofSource_eq_ungrouped (h : Module.ofSource source .keeping = .ok m) :
    Module.ofSource source = .ok m.ungrouped :=
  (ofSource_eq_and_not_callsAt h).1

/-- Parentheses in an attribute, in a condition, as an index and in a chain are dropped at once. -/
theorem ofSource_eq_ungrouped_of_nested_parentheses :
    ∃ m, Module.ofSource
        "@id((0)) override a: array<i32, (4)>; fn f() { if ((a[(0)]) == 1) { g((1 + 2) * 3); } }"
        .keeping = .ok m ∧
      Module.ofSource
        "@id((0)) override a: array<i32, (4)>; fn f() { if ((a[(0)]) == 1) { g((1 + 2) * 3); } }" =
          .ok m.ungrouped := by
  obtain ⟨m, hm⟩ := @exists_eq_ok (Module.ofSource
    "@id((0)) override a: array<i32, (4)>; fn f() { if ((a[(0)]) == 1) { g((1 + 2) * 3); } }"
    .keeping) (by decide +kernel)
  exact ⟨m, hm, ofSource_eq_ungrouped hm⟩

/-- A text is read with its parentheses kept if it is read with its parentheses dropped, unless it
opens parentheses right behind others, or has a statement that is a call in parentheses. -/
theorem exists_ofSource_keeping_iff :
    (∃ m, Module.ofSource source .keeping = .ok m) ↔
      ∃ m, Module.ofSource source = .ok m ∧ (tokenize source).IsChain Token.Apart ∧
        ∀ t ∈ tokenize source, t.kind = .symbol .parenLeft → t.location ∉ m.callLocations := by
  constructor
  · rintro ⟨m, hm⟩
    obtain ⟨hdropped, hcalls⟩ := ofSource_eq_and_not_callsAt hm
    refine ⟨m.ungrouped, hdropped, apart_of_ofSource hm, fun t ht hopen hl => hcalls ?_⟩
    exact ⟨t.location, hl, t, ht, hopen, rfl⟩
  · rintro ⟨m, hm, hapart, hcalls⟩
    have hagrees := agreesWith_of_apart hapart
    obtain ⟨c', hc'⟩ := ofTokens_eq_ok_iff.1 hm
    cases hkept : Nonterminal.declarations.outcome .keeping (.ofTokens (tokenize source)) with
    | accepted m' d => exact ⟨m', ofTokens_eq_ok_iff.2 ⟨d, hkept⟩⟩
    | rejected e d =>
      rw [hkept] at hagrees
      obtain ⟨l, hl, t, ht, hopen, rfl⟩ := hagrees m c' hc'
      exact absurd hl (hcalls t ht hopen)

/-- A call in parentheses is a statement only where the parentheses are dropped. -/
theorem keeping_rejects_call_in_parentheses :
    (∃ m, Module.ofSource "fn f() { (g()); }" = .ok m) ∧
      ¬∃ m, Module.ofSource "fn f() { (g()); }" .keeping = .ok m := by
  refine ⟨exists_eq_ok (by decide +kernel), ?_⟩
  rintro ⟨m, hm⟩
  have hrejected : (Module.ofSource "fn f() { (g()); }" .keeping).toOption.isSome = false := by
    decide +kernel
  simp [hm, Except.toOption] at hrejected

end Module

end Wgsl
