import Wgsl.Proofs.Along
import Wgsl.Proofs.Discipline
import Wgsl.Proofs.Reach
import Wgsl.Proofs.Steps
import Wgsl.Proofs.TokenKind

/-!
# Where names stand

A name before a `<` may begin a type that ends before a `(`. Whoever reads a name either reads it
as the name of a type, or has tried to, or cannot go on at a `<` (`Rule.Names`): no rule takes a
name before a `<` and then the `<` without having tried a type there. The name behind a `.` or a
`@` is an exception; that it belongs to a member or an attribute is seen from the token before it.

Where a rule reads or tries a nonterminal it is never directly behind a `.` or a `@`.
-/

namespace Wgsl

open scoped Rule.Steps

namespace TokenKind

/-- The name behind the token belongs to it, and begins no type. -/
def bindsName : TokenKind → Bool
  | .symbol .period | .symbol .attr => true
  | _ => false

/-- The token is a name. -/
def isName : TokenKind → Bool
  | .identifier _ => true
  | _ => false

/-- A name before the token may be more than a name. -/
def parts : TokenKind → Bool
  | .symbol .lessThan | .symbol .parenLeft => true
  | _ => false

/-- The token is a word with a meaning of its own, and no value. -/
def isReserved : TokenKind → Bool
  | .keyword .true | .keyword .false => false
  | .keyword _ => true
  | _ => false

@[simp] theorem parts_symbol (mark : Symbol) :
    (symbol mark).parts = decide (mark = .lessThan ∨ mark = .parenLeft) := by
  cases mark <;> rfl

@[simp] theorem isReserved_symbol (mark : Symbol) : (symbol mark).isReserved = false := rfl

@[simp] theorem isReserved_identifier (name : String) : (identifier name).isReserved = false := rfl

@[simp] theorem isReserved_number (spelling : String) : (number spelling).isReserved = false := rfl

@[simp] theorem isReserved_keyword (word : Keyword) :
    (keyword word).isReserved = decide (word ≠ .true ∧ word ≠ .false) := by
  cases word <;> rfl

@[simp] theorem isName_identifier (name : String) : (identifier name).isName = true := rfl

@[simp] theorem isName_symbol (mark : Symbol) : (symbol mark).isName = false := rfl

@[simp] theorem isName_keyword (word : Keyword) : (keyword word).isName = false := rfl

@[simp] theorem isName_number (spelling : String) : (number spelling).isName = false := rfl

@[simp] theorem bindsName_symbol (mark : Symbol) :
    (symbol mark).bindsName = decide (mark = .period ∨ mark = .attr) := by
  cases mark <;> rfl

@[simp] theorem bindsName_identifier (name : String) : (identifier name).bindsName = false := rfl

@[simp] theorem bindsName_keyword (word : Keyword) : (keyword word).bindsName = false := rfl

@[simp] theorem bindsName_number (spelling : String) : (number spelling).bindsName = false := rfl

variable {k : TokenKind}

/-- A name is what an identifier is. -/
theorem isName_iff : k.isName ↔ ∃ name, k = .identifier name := by
  cases k <;> simp [isName]

/-- The name of an attribute binds no further name. -/
theorem bindsName_of_attributeName? {name : String} (h : k.attributeName? = some name) :
    k.bindsName = false ∧ k ≠ .endOfFile := by
  cases k <;> simp_all [attributeName?]

/-- An operator is no name, and binds none. -/
theorem plain_of_infix? {op : InfixOperator} (h : k.infix? = some op) :
    k.isName = false ∧ k.bindsName = false ∧ k ≠ .endOfFile ∧ k.isReserved = false := by
  rw [infix?_eq_some_iff.1 h]
  cases op with
  | logical op | binary op => cases op <;> exact ⟨rfl, rfl, nofun, rfl⟩

private theorem plain_of_unary? {op : UnaryOperator} (h : k.unary? = some op) :
    k.isName = false ∧ k.bindsName = false ∧ k ≠ .endOfFile ∧ k.isReserved = false := by
  rw [unary?_eq_some_iff.1 h]
  cases op <;> exact ⟨rfl, rfl, nofun, rfl⟩

private theorem plain_of_assignment? {op : AssignmentOperator} (h : k.assignment? = some op) :
    k.isName = false ∧ k.bindsName = false ∧ k ≠ .endOfFile ∧ k.isReserved = false := by
  rw [assignment?_eq_some_iff.1 h]
  cases op <;> exact ⟨rfl, rfl, nofun, rfl⟩

private theorem plain_of_step? {op : StepOperator} (h : k.step? = some op) :
    k.isName = false ∧ k.bindsName = false ∧ k ≠ .endOfFile ∧ k.isReserved = false := by
  rw [step?_eq_some_iff.1 h]
  cases op <;> exact ⟨rfl, rfl, nofun, rfl⟩

private theorem plain_of_variableKind? {kind : VariableKind} (h : k.variableKind? = some kind) :
    k.isName = false ∧ k.bindsName = false ∧ k ≠ .endOfFile ∧ k.isReserved = true := by
  rw [variableKind?_eq_some_iff.1 h]
  cases kind <;> exact ⟨rfl, rfl, nofun, rfl⟩

private theorem plain_of_localVariableKind? {kind : VariableKind}
    (h : k.localVariableKind? = some kind) :
    k.isName = false ∧ k.bindsName = false ∧ k ≠ .endOfFile ∧ k.isReserved = true := by
  rw [(localVariableKind?_eq_some_iff.1 h).1]
  cases kind <;> exact ⟨rfl, rfl, nofun, rfl⟩

end TokenKind

/-- What a rule knows of where it stands. -/
structure Stand where
  /-- The token to be read, if it was looked at. -/
  seen : Option Token
  /-- Directly behind a `.` or a `@`. -/
  bound : Bool
  /-- The kind of the token behind the one to be read, if it was looked at. -/
  behind : Option TokenKind
  /-- A type that ends before a `(` was tried here, and refused. -/
  refused : Bool

namespace Stand

/-- Behind something else than a `.` or a `@`, before a token that was not looked at. -/
abbrev fresh : Stand := ⟨none, false, none, false⟩

/-- The token to be read may be the token. -/
@[simp] def Admits (s : Stand) (t : Token) : Prop := ∀ u ∈ s.seen, t = u

/-- The token to be read was seen to be a name. -/
@[simp] def SeesName (s : Stand) : Prop := ∃ t, s.seen = some t ∧ t.kind.isName

/-- A type may be accepted here that ends before a `(`. -/
@[simp] def Doubts (s : Stand) : Prop :=
  s.bound = false ∧ s.refused = false ∧ ∀ kind ∈ s.behind, kind = .symbol .lessThan

end Stand

namespace Rule

variable {α β : Type}

/-- Before a `<` the rule stops at once, and accepts nothing unless it is the end of a list of
names. -/
def Halts (options : ReadOptions) (n : Nonterminal) (r : Production α) : Prop :=
  ∀ c : Cursor, c.current.kind = .symbol .lessThan →
    (r.comesTo options c).cursor = c ∧ (r.comesTo options c).IfAccepted fun _ _ => n = .furtherNames

section Halts

variable {options : ReadOptions} {n : Nonterminal}

/-- A rule that looks at the token halts if it does behind a `<`. -/
@[simp] theorem halts_look {k : Token → Production α}
    (h : ∀ t : Token, t.kind = .symbol .lessThan → (k t).Halts options n) :
    (look k).Halts options n := by
  intro c hc
  simpa [Production.comesTo] using h c.current hc c hc

@[simp] theorem halts_look_fail {e : Token → ParseError} :
    (look fun t => fail (e t) : Production α).Halts options n :=
  fun _ _ => by simp [Production.comesTo]

@[simp] theorem halts_done {a : α} : (done a : Production α).Halts options .furtherNames :=
  fun _ _ => by simp [Production.comesTo]

/-- A rule that reads nothing at a `<` halts if it does then. -/
theorem halts_read {m : Nonterminal} {a : m.Result} {k : m.Result → Production α}
    (hm : ∀ c : Cursor, c.current.kind = .symbol .lessThan → m.outcome options c = .accepted a c)
    (hk : (k a).Halts options n) : (read m k).Halts options n := by
  intro c hc
  rw [Production.comesTo_read_of_accepted (hm c hc)]
  exact hk c hc

end Halts

/-- A rule for a nonterminal that takes a name before a `<` reads it as the name of a type, or has
tried to, or halts behind it. Where it looks behind a name and sees neither a `<` nor a `(`, it
takes the name. -/
@[simp] def Names (options : ReadOptions) (n : Nonterminal) : Production α → Stand → Prop
  | .done _, s => s.bound = false
  | .fail _, _ => True
  | .look k, s => ∀ t, s.Admits t → (k t).Names options n { s with seen := some t }
  | .lookBehind k, s =>
    s.SeesName ∧ (∃ r, ∀ kind, kind.parts = false → k kind = .advance r) ∧
      ∀ kind, (k kind).Names options n { s with behind := some kind }
  | .advance k, s =>
    ∃ t, s.seen = some t ∧ t.kind ≠ .endOfFile ∧
      (t.kind.isReserved → s.bound = n.inExpression) ∧
      (t.kind.isName → s.Doubts → n = .type ∨ k.Halts options n) ∧
      k.Names options n ⟨none, t.kind.bindsName, none, false⟩
  | .split k, s => s.bound = false ∧ k.Names options n .fresh
  | .read m k, s =>
    s.bound = false ∧ ∀ a, (m = .furtherNames → (k a).Halts options n) ∧
      (k a).Names options n .fresh
  | .attempt m k, s =>
    s.SeesName ∧ s.bound = false ∧ s.behind = some (.symbol .lessThan) ∧ m = .constructorType ∧
      (∀ a, (k (some a)).Names options n .fresh) ∧
      (k none).Names options n { s with refused := true }

variable {options : ReadOptions} {n : Nonterminal} {s : Stand}

@[simp] theorem names_ite {p : Prop} [Decidable p] {r r' : Production α} :
    (if p then r else r').Names options n s ↔
      (p → r.Names options n s) ∧ (¬p → r'.Names options n s) := by
  split <;> simp_all

@[simp] theorem names_elim {γ : Type} {o : Option γ} {r : Production α} {f : γ → Production α} :
    (o.elim r f).Names options n s ↔
      (o = none → r.Names options n s) ∧ ∀ a, o = some a → (f a).Names options n s := by
  cases o <;> simp

end Rule

/-- The rule of a nonterminal minds names, from where nothing was looked at. -/
abbrev Nonterminal.MindsNames (options : ReadOptions) (n : Nonterminal) : Prop :=
  (Production.ofNonterminal options n).Names options n .fresh

namespace Production

open Rule Nonterminal

variable (options : ReadOptions)

private theorem names_attribute : MindsNames options .attribute := by
  simp +contextual only [MindsNames, ofNonterminal, singleAttribute, steps_eq, Names, Stand.Admits,
    Option.mem_def, reduceCtorEq, false_implies, implies_true, Option.some.injEq, forall_eq',
    names_ite, ne_eq, true_implies, exists_eq_left', not_false_eq_true, TokenKind.isReserved_symbol,
    TokenKind.isName_symbol, true_and, and_true, forall_eq]
  intro t ht t'
  split
  · simp
  · rename_i name hname
    simp +contextual [TokenKind.bindsName_of_attributeName? hname]

private theorem names_attributes : MindsNames options .attributes := by
  simp +contextual [attributes, MindsNames]

private theorem names_type : MindsNames options .type := by
  simp +contextual [type, MindsNames]

/-- Nothing that closes an angle begins with a `<`. -/
theorem halts_closeAngle {α : Type} {n : Nonterminal} {expected : Expectation}
    {f : Unit → Production α} : ((closeAngle expected).bind f).Halts options n := by
  intro c hc
  simp [closeAngle_eq, hc, Token.afterAngle?, Symbol.afterAngle?]

private theorem names_closeAngle {α : Type} {n : Nonterminal} {expected : Expectation}
    {f : Unit → Production α} {s : Stand} (hs : s.bound = false)
    (hf : (f ()).Names options n .fresh) :
    ((closeAngle expected).bind f).Names options n s := by
  simp +contextual [closeAngle_eq, hs, hf]

private theorem halts_closeParameters {α : Type} {n : Nonterminal} {typeName : String}
    {f : Unit → Production α} : ((closeParameters typeName).bind f).Halts options n := by
  intro c hc
  simpa [closeParameters, hc] using halts_closeAngle options c hc

private theorem names_closeParameters {α : Type} {n : Nonterminal} {typeName : String}
    {f : Unit → Production α} {s : Stand} (hs : s.bound = false)
    (hf : (f ()).Names options n .fresh) :
    ((closeParameters typeName).bind f).Names options n s := by
  simp +contextual [closeParameters, names_closeAngle, hs, hf]

private theorem names_typeParameters (typeName : String) :
    MindsNames options (.typeParameters typeName) := by
  have closes : ∀ (parameters : TypeParameters) (seen : Option Token),
      ((closeParameters typeName).bind fun _ => done parameters).Names options
        (.typeParameters typeName) ⟨seen, false, none, false⟩ :=
    fun _ _ => names_closeParameters options rfl rfl
  by_cases hptr : typeName = "ptr"
  · subst hptr
    simp +contextual [typeParameters, furtherParameter, MindsNames, halts_closeParameters, closes]
  · simp +contextual [typeParameters, furtherParameter, MindsNames, halts_closeParameters, closes,
      hptr]

private theorem names_constructorType : MindsNames options .constructorType := by
  simp +contextual [constructorType, MindsNames]

private theorem names_expression (inAngles : Bool) : MindsNames options (.expression inAngles) := by
  simp +contextual [expression, MindsNames]

private theorem names_operations (inAngles : Bool) : MindsNames options (.operations inAngles) := by
  simp only [MindsNames, ofNonterminal, operations, steps_eq, Names]
  intro t
  split
  · simp
  · rename_i op hop
    simp [TokenKind.plain_of_infix? hop]

private theorem names_unary : MindsNames options .unary := by
  simp only [MindsNames, ofNonterminal, unary, steps_eq, Names]
  intro t
  split
  · simp
  · rename_i op hop
    simp [TokenKind.plain_of_unary? hop]

private theorem names_suffixed : MindsNames options .suffixed := by
  simp +contextual [suffixed, MindsNames]

private theorem names_suffixes (base : Expression) : MindsNames options (.suffixes base) := by
  simp only [MindsNames, ofNonterminal, suffixes, steps_eq, Names]
  intro t
  split
  · simp +contextual [*]
  · simp +contextual [*]
  · split <;> simp
  · simp

private theorem names_primary : MindsNames options .primary := by
  simp only [MindsNames, ofNonterminal, primary, steps_eq, Names, Stand.Admits, Option.mem_def,
    reduceCtorEq, false_implies, implies_true, true_implies]
  intro t
  split
  · simp [*]
  · simp [*]
  · simp [*]
  · simp +contextual [*]
  · rename_i name hname
    simp only [Rule.Names]
    refine ⟨⟨t, rfl, by rw [hname]; rfl⟩, ⟨.done (.identifier name t.location), ?_⟩, fun kind => ?_⟩
    · intro kind hkind
      split <;> simp_all
    · split
      · simp [hname]
      · simp [hname]
      · rename_i hless _
        simp [hname, show kind ≠ .symbol .lessThan from hless]
  · simp

private theorem names_expressions : MindsNames options .expressions := by
  simp +contextual [expressions, MindsNames]

private theorem names_arguments : MindsNames options .arguments := by
  simp +contextual [arguments, MindsNames]

private theorem names_construction (made : TypeSpecifier) (l : Location) :
    MindsNames options (.construction made l) := by
  simp only [MindsNames, ofNonterminal, construction, steps_eq, Names, true_and]
  intro arguments
  split <;> simp

private theorem names_block (place : String) : MindsNames options (.block place) := by
  simp +contextual [block, MindsNames]

private theorem names_storage (kind : VariableKind) : MindsNames options (.storage kind) := by
  have closes : ∀ (expected : Expectation) (storage : Option Storage) (seen : Option Token),
      ((closeAngle expected).bind fun _ => done storage).Names options (.storage kind)
        ⟨seen, false, none, false⟩ :=
    fun _ _ _ => names_closeAngle options rfl rfl
  by_cases hvar : kind = .var
  · subst hvar
    simp +contextual [storage, MindsNames, halts_closeAngle, closes]
  · simp [storage, MindsNames, hvar]

private theorem names_ascription : MindsNames options .ascription := by
  simp +contextual [ascription, MindsNames]

private theorem names_initializer (kind : VariableKind) :
    MindsNames options (.initializer kind) := by
  simp +contextual [initializer, MindsNames]

/-- A variable that has neither a type nor a value is refused. -/
theorem names_variable (kind : VariableKind) (l : Location) :
    MindsNames options (.variable kind l) := by
  simp +contextual only [MindsNames, ofNonterminal, variableDeclaration, steps_eq, Names,
    reduceCtorEq, false_implies, Stand.Admits, Option.mem_def, implies_true, names_elim, ne_eq,
    Option.some.injEq, TokenKind.name?_eq_some_iff, inExpression, Stand.Doubts, false_or,
    true_implies, names_ite, and_true, true_and, exists_eq_left', not_false_eq_true,
    TokenKind.isName_identifier, TokenKind.bindsName_identifier]
  intro storage t name hname c hc
  have hascription : Nonterminal.ascription.outcome options c = .accepted none c := by
    rw [outcome_eq]
    simp [ascription, hc]
  by_cases hkind : kind = .let ∨ kind = .const
  · simp [hascription, outcome_eq (.initializer kind), initializer, hc, follow_ite, hkind]
  · simp [hascription, outcome_eq (.initializer kind), initializer, hc, follow_ite, hkind]

private theorem names_simpleStatement : MindsNames options .simpleStatement := by
  simp only [MindsNames, ofNonterminal, simpleStatement, steps_eq, Names, Stand.Admits,
    Option.mem_def, reduceCtorEq, false_implies, implies_true, true_implies, true_and]
  intro _ target t
  split
  · rename_i op hop
    simp [TokenKind.plain_of_assignment? hop]
  · rename_i op hop
    simp [TokenKind.plain_of_step? hop]
  · simp
  · simp

private theorem names_plainStatement : MindsNames options .plainStatement := by
  simp only [MindsNames, ofNonterminal, plainStatement, steps_eq, condition, Names]
  intro t
  split
  · simp +contextual [*]
  · simp +contextual [*]
  · simp +contextual [*]
  · simp +contextual [*]
  · simp +contextual [*]
  · simp +contextual [*]
  · split
    · rename_i kind hkind
      simp +contextual [TokenKind.plain_of_localVariableKind? hkind]
    · simp +contextual

private theorem names_statement : MindsNames options .statement := by
  simp only [MindsNames, ofNonterminal, statement, steps_eq, Names, reduceCtorEq, false_implies,
    true_and]
  intro attributes t
  split <;> simp [*]

private theorem names_statements : MindsNames options .statements := by
  simp only [MindsNames, ofNonterminal, statements, steps_eq, Names]
  intro t
  split <;> simp [*]

private theorem names_conditional : MindsNames options .conditional := by
  simp +contextual [conditional, condition, MindsNames]

private theorem names_alternatives : MindsNames options .alternatives := by
  simp +contextual [alternatives, condition, MindsNames]

private theorem names_selection : MindsNames options .selection := by
  simp +contextual [selection, condition, MindsNames]

private theorem names_clauses (hasDefault : Bool) : MindsNames options (.clauses hasDefault) := by
  simp only [MindsNames, ofNonterminal, clauses, steps_eq, Names]
  intro t
  split <;> simp +contextual [*]

private theorem names_selectors : MindsNames options .selectors := by
  simp +contextual [selectors, MindsNames]

private theorem names_forInitializer : MindsNames options .forInitializer := by
  simp only [MindsNames, ofNonterminal, forInitializer, steps_eq, Names, names_ite]
  intro t
  split
  · rename_i kind hkind
    simp [TokenKind.plain_of_localVariableKind? hkind]
  · simp

private theorem names_forCondition : MindsNames options .forCondition := by
  simp +contextual [forCondition, MindsNames]

private theorem names_forUpdate : MindsNames options .forUpdate := by
  simp +contextual [forUpdate, MindsNames]

private theorem names_iteration : MindsNames options .iteration := by
  simp +contextual [iteration, MindsNames]

private theorem names_repetition : MindsNames options .repetition := by
  simp +contextual [repetition, condition, MindsNames]

private theorem names_loop : MindsNames options .loop := by
  simp +contextual [loop, MindsNames]

private theorem names_loopBody : MindsNames options .loopBody := by
  simp only [MindsNames, ofNonterminal, loopBody, steps_eq, Names]
  intro t
  split <;> simp [*]

/-- At a `<` no further name follows. -/
private theorem halts_furtherNames {α : Type} {n : Nonterminal} {k : List String → Production α}
    (hk : (k []).Halts options n) : (Rule.read .furtherNames k).Halts options n := by
  refine halts_read (fun c hc => ?_) hk
  rw [outcome_eq]
  simp [furtherNames, hc]

private theorem names_furtherNames : MindsNames options .furtherNames := by
  simp +contextual [furtherNames, MindsNames, halts_furtherNames]

private theorem names_bindings (role : BindingRole) : MindsNames options (.bindings role) := by
  simp +contextual [bindings, MindsNames]

private theorem names_functionResult : MindsNames options .functionResult := by
  simp +contextual [functionResult, MindsNames]

private theorem names_function : MindsNames options .function := by
  simp +contextual [function, MindsNames]

private theorem names_item : MindsNames options .item := by
  simp only [MindsNames, ofNonterminal, item, steps_eq, condition, Names]
  intro t
  split
  · simp +contextual [halts_furtherNames, *]
  · simp +contextual [*]
  · simp +contextual [*]
  · simp +contextual [*]
  · simp +contextual [*]
  · simp +contextual [*]
  · simp
  · simp
  · simp
  · split
    · rename_i kind hkind
      simp +contextual [TokenKind.plain_of_variableKind? hkind]
    · simp

private theorem names_declaration : MindsNames options .declaration := by
  simp +contextual [declaration, MindsNames]

private theorem names_declarations : MindsNames options .declarations := by
  simp only [MindsNames, ofNonterminal, declarations, steps_eq, Names]
  intro t
  split <;> simp [*]

/-- The rule of every nonterminal minds names. -/
theorem names (n : Nonterminal) : n.MindsNames options :=
  match n with
  | .attribute => names_attribute options
  | .attributes => names_attributes options
  | .type => names_type options
  | .typeParameters typeName => names_typeParameters options typeName
  | .constructorType => names_constructorType options
  | .expression inAngles => names_expression options inAngles
  | .operations inAngles => names_operations options inAngles
  | .unary => names_unary options
  | .suffixed => names_suffixed options
  | .suffixes base => names_suffixes options base
  | .primary => names_primary options
  | .expressions => names_expressions options
  | .arguments => names_arguments options
  | .construction made l => names_construction options made l
  | .block place => names_block options place
  | .storage kind => names_storage options kind
  | .ascription => names_ascription options
  | .initializer kind => names_initializer options kind
  | .variable kind l => names_variable options kind l
  | .simpleStatement => names_simpleStatement options
  | .plainStatement => names_plainStatement options
  | .statement => names_statement options
  | .statements => names_statements options
  | .conditional => names_conditional options
  | .alternatives => names_alternatives options
  | .selection => names_selection options
  | .clauses hasDefault => names_clauses options hasDefault
  | .selectors => names_selectors options
  | .forInitializer => names_forInitializer options
  | .forCondition => names_forCondition options
  | .forUpdate => names_forUpdate options
  | .iteration => names_iteration options
  | .repetition => names_repetition options
  | .loop => names_loop options
  | .loopBody => names_loopBody options
  | .furtherNames => names_furtherNames options
  | .bindings role => names_bindings options role
  | .functionResult => names_functionResult options
  | .function => names_function options
  | .item => names_item options
  | .declaration => names_declaration options
  | .declarations => names_declarations options

end Production

end Wgsl
